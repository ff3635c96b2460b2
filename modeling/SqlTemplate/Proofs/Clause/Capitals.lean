import Mathlib.Data.List.Forall2
import SqlTemplate.Clause
import SqlTemplate.Clause.UpperBound
import SqlTemplate.Keyword.FreeStanding
import SqlTemplate.Proofs.Placeholder.Places
import SqlTemplate.Proofs.Text.Capitals

namespace SqlTemplate

section Keywords

theorem Connector.take?_capitals (text : List Char) :
    Connector.take? (capitals text) =
      (Connector.take? text).map (Prod.map id (Prod.map capitals capitals)) := by
  simp only [Connector.take?, takeWord?_capitals, List.map_findSome?, Function.comp_def,
    Option.map_map]
  rfl

theorem Operator.take?_capitals (text : List Char) :
    Operator.take? (capitals text) = (Operator.take? text).map (Prod.map capitals capitals) := by
  simp only [Operator.take?, takeWord?_capitals, List.map_findSome?, Function.comp_def]

theorem Operator.ofToken?_capitals (word : List Char) :
    Operator.ofToken? (capitals word) = Operator.ofToken? word := by
  simp only [Operator.ofToken?, sameIgnoringCase_capitals]

end Keywords

namespace Clause

def Comparison.inCapitals (comparison : Comparison) : Comparison :=
  { blanksBefore := capitals comparison.blanksBefore
    operator := capitals comparison.operator
    blanksAfter := capitals comparison.blanksAfter
    placeholder := capitals comparison.placeholder }

theorem Comparison.written_inCapitals (comparison : Comparison) :
    comparison.inCapitals.written = capitals comparison.written := by
  simp [inCapitals, written]

theorem Comparison.read?_capitals (text : List Char) :
    Comparison.read? (capitals text) = (Comparison.read? text).map inCapitals := by
  rw [read?, read?, dropWhile_capitals isBlank_ignoresCase, Operator.take?_capitals]
  cases Operator.take? (text.dropWhile isBlank) with
  | none => rfl
  | some taken =>
    obtain ⟨operator, rest⟩ := taken
    simp only [Option.map_some, Prod.map, dropWhile_capitals isBlank_ignoresCase,
      takeWhile_capitals isBlank_ignoresCase]
    -- In capitals a colon stands where one stands in the text, so both are read or neither.
    split
    · next name hbehind =>
      obtain ⟨behind, htext, rfl⟩ := exists_cons_of_capitals_eq_cons rfl hbehind
      simp only [htext, takeName?_capitals isFoldedLetter_ignoresCase, Option.map_map]
      rfl
    · next hother =>
      split
      · next behind htext =>
        exact absurd (congrArg capitals htext) (hother (capitals behind))
      · rfl

theorem longestPath?_capitals {α : Type} {next : List Char → Option α} {inCapitals : α → α}
    (hnext : ∀ text, next (capitals text) = (next text).map inCapitals) (inSegment : Bool)
    (text : List Char) :
    longestPath? next inSegment (capitals text) =
      (longestPath? next inSegment text).map (Prod.map capitals inCapitals) := by
  have hends : ∀ (inSegment : Bool) (text : List Char),
      (if inSegment then (next (capitals text)).map (([], ·)) else none) =
        (if inSegment then (next text).map (([], ·)) else none).map
          (Prod.map capitals inCapitals) := by
    intro inSegment text
    split
    · rw [hnext, Option.map_map, Option.map_map]
      rfl
    · rfl
  induction text generalizing inSegment with
  | nil => exact hends inSegment []
  | cons c cs ih =>
    have hdot : (c.toUpper == '.') = (c == '.') := beq_ignoresCase rfl c
    have hcolumn : isColumnChar c.toUpper = isColumnChar c :=
      isNamePart_ignoresCase isFoldedLetter_ignoresCase c
    -- A path that goes on and leads nowhere ends here, so each way on has both outcomes.
    rw [capitals_cons, longestPath?, longestPath?, hcolumn, hdot]
    by_cases hsegment : isColumnChar c
    · rw [if_pos hsegment, if_pos hsegment, ih true]
      cases longestPath? next true cs with
      | some found => rfl
      | none => exact hends inSegment (c :: cs)
    · rw [if_neg hsegment, if_neg hsegment]
      by_cases hdots : inSegment && c == '.'
      · rw [if_pos hdots, if_pos hdots, ih false]
        cases longestPath? next false cs with
        | some found => rfl
        | none => exact hends inSegment (c :: cs)
      · rw [if_neg hdots, if_neg hdots]
        exact hends inSegment (c :: cs)

def Reading.inCapitals (reading : Reading) : Reading :=
  { connector := reading.connector
    keyword := capitals reading.keyword
    column := capitals reading.column
    comparison := reading.comparison.inCapitals }

theorem Reading.written_inCapitals (reading : Reading) :
    reading.inCapitals.written = capitals reading.written := by
  simp [inCapitals, written, Comparison.written_inCapitals]

theorem Reading.read?_capitals (text : List Char) :
    Reading.read? (capitals text) = (Reading.read? text).map inCapitals := by
  rw [read?, read?, Connector.take?_capitals]
  cases Connector.take? text with
  | none => rfl
  | some taken =>
    obtain ⟨connector, keyword, rest⟩ := taken
    simp only [Option.map_some, Prod.map]
    split
    · next heq =>
      simp only [Option.some.injEq, Prod.mk.injEq] at heq
      obtain ⟨rfl, rfl, hspace⟩ := heq
      obtain ⟨behind, rfl, rfl⟩ := exists_cons_of_capitals_eq_cons rfl hspace
      simp only [longestPath?_capitals Comparison.read?_capitals, Option.map_map]
      rfl
    · next hother =>
      split
      · next heq =>
        simp only [Option.some.injEq, Prod.mk.injEq] at heq
        obtain ⟨rfl, rfl, rfl⟩ := heq
        exact absurd rfl (hother _ _ _)
      · rfl

theorem recogniser_ignoresCase : recogniser.IgnoresCase Reading.inCapitals := by
  intro before text
  simp only [recogniser, any_map_toUpper isWordChar_ignoresCase, Reading.read?_capitals]
  split
  · rfl
  · simp only [Option.map_map, Function.comp_def, Prod.map, Reading.written_inCapitals]

/-- The clause with its names in capitals. -/
def inCapitals (clause : Clause) : Clause :=
  { clause with
    column := String.ofList (capitals clause.column.toList)
    placeholder := String.ofList (capitals clause.placeholder.toList) }

theorem ofMatch?_inCapitals (found : Match Reading) :
    ofMatch? (found.map Reading.inCapitals) = (ofMatch? found).map inCapitals := by
  have htoken : Operator.ofToken? (capitals found.value.comparison.operator) =
      Operator.ofToken? found.value.comparison.operator := Operator.ofToken?_capitals _
  simp only [ofMatch?, Match.map, Reading.inCapitals, Comparison.inCapitals, htoken,
    Option.map_map, Function.comp_def, inCapitals, String.toList_ofList]

end Clause

theorem clauses_capitals (text : List Char) :
    clauses (capitals text) = (clauses text).map Clause.inCapitals := by
  rw [clauses, clauses, Recogniser.scan_capitals Clause.recogniser_ignoresCase,
    List.filterMap_map, List.map_filterMap]
  congr 1
  funext found
  exact Clause.ofMatch?_inCapitals found

namespace ColonName

def inCapitals : ColonName → ColonName
  | placeholder name => placeholder (capitals name)
  | cast name => cast (capitals name)

theorem written_inCapitals (word : ColonName) :
    word.inCapitals.written = capitals word.written := by
  cases word <;> rfl

theorem read?_of_ne_colon {c : Char} (hne : c ≠ ':') (cs : List Char) : read? (c :: cs) = none := by
  unfold read?
  split
  · next heq => exact absurd (List.cons.inj heq).1 hne
  · next heq => exact absurd (List.cons.inj heq).1 hne
  · rfl

theorem leadingName?_capitals (text : List Char) :
    leadingName? (capitals text) = (leadingName? text).map capitals := by
  rw [leadingName?, leadingName?, takeName?_capitals isAlpha_ignoresCase, Option.map_map,
    Option.map_map]
  rfl

theorem read?_capitals (text : List Char) :
    read? (capitals text) = (read? text).map inCapitals := by
  cases text with
  | nil => rfl
  | cons c cs =>
    by_cases hcolon : c = ':'
    · subst hcolon
      cases cs with
      | nil => rfl
      | cons d ds =>
        by_cases hcast : d = ':'
        · subst hcast
          change read? (':' :: ':' :: capitals ds) = _
          rw [read?_cast, read?_cast, leadingName?_capitals, Option.map_map, Option.map_map]
          rfl
        · have hcapital : d.toUpper ≠ ':' := mt (toUpper_eq_iff rfl).1 hcast
          change read? (':' :: d.toUpper :: capitals ds) = _
          rw [read?_placeholder hcapital, read?_placeholder hcast, ← capitals_cons,
            leadingName?_capitals, Option.map_map, Option.map_map]
          rfl
    · have hcapital : c.toUpper ≠ ':' := mt (toUpper_eq_iff rfl).1 hcolon
      rw [capitals_cons, read?_of_ne_colon hcapital, read?_of_ne_colon hcolon]
      rfl

theorem recogniser_ignoresCase : recogniser.IgnoresCase inCapitals := by
  intro before text
  simp only [recogniser, read?_capitals, Option.map_map, Function.comp_def, Prod.map,
    written_inCapitals]

end ColonName

/-- The occurrence with its name in capitals. -/
def Placeholder.inCapitals (p : Placeholder) : Placeholder :=
  { p with name := String.ofList (capitals p.name.toList) }

theorem placeholders_capitals (text : List Char) :
    placeholders (capitals text) = (placeholders text).map Placeholder.inCapitals := by
  rw [placeholders, placeholders, Recogniser.scan_capitals ColonName.recogniser_ignoresCase,
    List.filterMap_map, List.map_filterMap]
  congr 1
  funext found
  obtain ⟨span, word⟩ := found
  cases word with
  | placeholder name =>
    simp [Match.map, ColonName.inCapitals, ColonName.placeholder?, Placeholder.inCapitals]
  | cast name => rfl

section FreeStanding

theorem Connector.isWordBeside_ignoresCase (beside : Option Char) :
    isWordBeside (beside.map Char.toUpper) = isWordBeside beside :=
  any_map_toUpper isWordChar_ignoresCase beside

theorem Connector.readJoining?_capitals (text : List Char) :
    readJoining? (capitals text) = (readJoining? text).map capitals := by
  rw [readJoining?, readJoining?, Connector.take?_capitals]
  cases Connector.take? text with
  | none => rfl
  | some taken =>
    obtain ⟨connector, keyword, rest⟩ := taken
    simp only [Option.map_some, Prod.map, id_eq, head?_capitals, isWordBeside_ignoresCase]
    split <;> rfl

theorem Connector.joiningRecogniser_ignoresCase : joiningRecogniser.IgnoresCase id := by
  intro before text
  simp only [joiningRecogniser, isWordBeside_ignoresCase, readJoining?_capitals]
  split
  · rfl
  · rw [Option.map_map, Option.map_map]
    rfl

theorem joiningSpans_capitals (text : List Char) :
    joiningSpans (capitals text) = joiningSpans text := by
  rw [joiningSpans, joiningSpans,
    Recogniser.scan_capitals Connector.joiningRecogniser_ignoresCase, List.map_map]
  rfl

theorem firstJoiningOutside?_capitals (taken : List Span) (text : List Char) :
    firstJoiningOutside? taken (capitals text) = firstJoiningOutside? taken text := by
  rw [firstJoiningOutside?, joiningSpans_capitals, firstJoiningOutside?]

end FreeStanding

namespace UpperBound

/-- The upper bound with its name in capitals. -/
def inCapitals (upper : UpperBound) : UpperBound :=
  { upper with placeholder := String.ofList (capitals upper.placeholder.toList) }

theorem read?_capitals (offset : Nat) (text : List Char) :
    read? offset (capitals text) = (read? offset text).map inCapitals := by
  rw [read?, read?, dropWhile_capitals isBlank_ignoresCase, Connector.take?_capitals]
  cases Connector.take? (text.dropWhile isBlank) with
  | none => rfl
  | some taken =>
    obtain ⟨connector, keyword, rest⟩ := taken
    simp only [Option.map_some, Prod.map, takeWhile_capitals isBlank_ignoresCase,
      byteLen_capitals]
    split
    · next heq =>
      simp only [Option.some.injEq, Prod.mk.injEq] at heq
      obtain ⟨rfl, rfl, hspace⟩ := heq
      obtain ⟨colon, rfl, hcolon⟩ := exists_cons_of_capitals_eq_cons rfl hspace
      obtain ⟨behind, rfl, rfl⟩ := exists_cons_of_capitals_eq_cons rfl hcolon
      simp only [takeName?_capitals isFoldedLetter_ignoresCase, Option.map_map]
      congr 1
      funext taken
      simp [inCapitals]
    · next hother =>
      split
      · next heq =>
        simp only [Option.some.injEq, Prod.mk.injEq] at heq
        obtain ⟨rfl, rfl, rfl⟩ := heq
        exact absurd rfl (hother _ _ _)
      · rfl

end UpperBound

theorem upperBoundAt?_capitals (text : List Char) (offset : Nat) :
    upperBoundAt? (capitals text) offset = (upperBoundAt? text offset).map UpperBound.inCapitals := by
  simp only [upperBoundAt?, splitAtByte?_capitals]
  cases splitAtByte? offset text with
  | none => rfl
  | some parts => exact UpperBound.read?_capitals offset parts.2

section SameIgnoringCase

variable {text text' : List Char}

/-- Clauses at one place that compare in the same way; the names in them may differ in case. -/
structure Clause.SameIgnoringCase (a b : Clause) : Prop where
  span : a.span = b.span
  connector : a.connector = b.connector
  column : sameIgnoringCase a.column.toList b.column.toList
  operator : a.operator = b.operator
  placeholder : sameIgnoringCase a.placeholder.toList b.placeholder.toList

/-- Occurrences at one place, of names that may differ in case. -/
structure Placeholder.SameIgnoringCase (p q : Placeholder) : Prop where
  span : p.span = q.span
  name : sameIgnoringCase p.name.toList q.name.toList

/-- Upper bounds at one place behind the same connector, of names that may differ in case. -/
structure UpperBound.SameIgnoringCase (a b : UpperBound) : Prop where
  span : a.span = b.span
  connector : a.connector = b.connector
  placeholder : sameIgnoringCase a.placeholder.toList b.placeholder.toList

theorem Clause.sameIgnoringCase_of_inCapitals_eq {a b : Clause}
    (heq : a.inCapitals = b.inCapitals) : a.SameIgnoringCase b := by
  simp only [inCapitals, Clause.mk.injEq, String.ofList_inj] at heq
  obtain ⟨hspan, hconnector, hcolumn, hoperator, hplaceholder⟩ := heq
  exact ⟨hspan, hconnector, sameIgnoringCase_iff.2 hcolumn, hoperator,
    sameIgnoringCase_iff.2 hplaceholder⟩

theorem Placeholder.sameIgnoringCase_of_inCapitals_eq {p q : Placeholder}
    (heq : p.inCapitals = q.inCapitals) : p.SameIgnoringCase q := by
  simp only [inCapitals, Placeholder.mk.injEq, String.ofList_inj] at heq
  exact ⟨heq.1, sameIgnoringCase_iff.2 heq.2⟩

theorem UpperBound.sameIgnoringCase_of_inCapitals_eq {a b : UpperBound}
    (heq : a.inCapitals = b.inCapitals) : a.SameIgnoringCase b := by
  simp only [inCapitals, UpperBound.mk.injEq, String.ofList_inj] at heq
  obtain ⟨hspan, hconnector, hplaceholder⟩ := heq
  exact ⟨hspan, hconnector, sameIgnoringCase_iff.2 hplaceholder⟩

/-- Lists that a function makes equal are related element by element, if it makes only related
elements equal. -/
theorem forall₂_of_map_eq {α β : Type} {f : α → β} {related : α → α → Prop}
    (hrelated : ∀ {a b}, f a = f b → related a b) {as bs : List α} (heq : as.map f = bs.map f) :
    List.Forall₂ related as bs := by
  have hsame : List.Forall₂ (· = ·) (as.map f) (bs.map f) := by
    rw [heq]
    exact List.forall₂_refl _
  rw [List.forall₂_map_left_iff, List.forall₂_map_right_iff] at hsame
  exact hsame.imp fun _ _ => hrelated

theorem clauses_of_sameIgnoringCase (hsame : sameIgnoringCase text text') :
    List.Forall₂ Clause.SameIgnoringCase (clauses text) (clauses text') := by
  apply forall₂_of_map_eq Clause.sameIgnoringCase_of_inCapitals_eq
  rw [← clauses_capitals, ← clauses_capitals, sameIgnoringCase_iff.1 hsame]

theorem placeholders_of_sameIgnoringCase (hsame : sameIgnoringCase text text') :
    List.Forall₂ Placeholder.SameIgnoringCase (placeholders text) (placeholders text') := by
  apply forall₂_of_map_eq Placeholder.sameIgnoringCase_of_inCapitals_eq
  rw [← placeholders_capitals, ← placeholders_capitals, sameIgnoringCase_iff.1 hsame]

theorem upperBoundAt?_of_sameIgnoringCase (hsame : sameIgnoringCase text text') (offset : Nat) :
    Option.Rel UpperBound.SameIgnoringCase (upperBoundAt? text offset)
      (upperBoundAt? text' offset) := by
  have heq : (upperBoundAt? text offset).map UpperBound.inCapitals =
      (upperBoundAt? text' offset).map UpperBound.inCapitals := by
    rw [← upperBoundAt?_capitals, ← upperBoundAt?_capitals, sameIgnoringCase_iff.1 hsame]
  cases hupper : upperBoundAt? text offset with
  | none =>
    rw [hupper, Option.map_none, eq_comm, Option.map_eq_none_iff] at heq
    rw [heq]
    exact .none
  | some upper =>
    rw [hupper, Option.map_some, eq_comm, Option.map_eq_some_iff] at heq
    obtain ⟨upper', hupper', hcapitals⟩ := heq
    rw [hupper']
    exact .some (UpperBound.sameIgnoringCase_of_inCapitals_eq hcapitals.symm)

theorem firstJoiningOutside?_of_sameIgnoringCase (hsame : sameIgnoringCase text text')
    (taken : List Span) : firstJoiningOutside? taken text = firstJoiningOutside? taken text' := by
  rw [← firstJoiningOutside?_capitals, ← firstJoiningOutside?_capitals taken text',
    sameIgnoringCase_iff.1 hsame]

/-- In two texts that differ at most in the case of ASCII letters the same is recognised at the same
places: clauses, placeholders, an upper bound from any offset on, and the first free-standing
connector outside any spans. The names found may differ in case. Nothing else is assumed of the
texts, the offset or the spans. -/
theorem recognised_of_sameIgnoringCase (hsame : sameIgnoringCase text text') :
    List.Forall₂ Clause.SameIgnoringCase (clauses text) (clauses text') ∧
      List.Forall₂ Placeholder.SameIgnoringCase (placeholders text) (placeholders text') ∧
      (∀ offset, Option.Rel UpperBound.SameIgnoringCase (upperBoundAt? text offset)
        (upperBoundAt? text' offset)) ∧
      ∀ taken, firstJoiningOutside? taken text = firstJoiningOutside? taken text' :=
  ⟨clauses_of_sameIgnoringCase hsame, placeholders_of_sameIgnoringCase hsame,
    upperBoundAt?_of_sameIgnoringCase hsame, firstJoiningOutside?_of_sameIgnoringCase hsame⟩

/-- Keywords and names in mixed case, one operator run into its column, a long s that stays. -/
theorem recognised_of_sameIgnoringCase_mixed :
    let text := "SELECT ſ FROM t WHERE paidIS :paid AND b BETWEEN :lo AND :hi OR 1".toList
    let text' := "select ſ from T where PaidiS :PAID and B beTween :Lo aNd :HI oR 1".toList
    sameIgnoringCase text text' ∧
      clauses text = [⟨⟨17, 35⟩, .where_, "paid", .is, "paid"⟩,
        ⟨⟨36, 53⟩, .and, "b", .between, "lo"⟩] ∧
      List.Forall₂ Clause.SameIgnoringCase (clauses text) (clauses text') ∧
      placeholders text = [⟨⟨30, 35⟩, "paid"⟩, ⟨⟨50, 53⟩, "lo"⟩, ⟨⟨58, 61⟩, "hi"⟩] ∧
      List.Forall₂ Placeholder.SameIgnoringCase (placeholders text) (placeholders text') ∧
      upperBoundAt? text 53 = some ⟨⟨54, 61⟩, .and, "hi"⟩ ∧
      Option.Rel UpperBound.SameIgnoringCase (upperBoundAt? text 53) (upperBoundAt? text' 53) ∧
      firstJoiningOutside? [⟨17, 53⟩, ⟨54, 61⟩] text' = some ⟨62, 64⟩ ∧
      firstJoiningOutside? [⟨17, 53⟩, ⟨54, 61⟩] text =
        firstJoiningOutside? [⟨17, 53⟩, ⟨54, 61⟩] text' := by
  intro text text'
  have hsame : sameIgnoringCase text text' := by decide +kernel
  obtain ⟨hclauses, hplaceholders, hupper, hjoining⟩ := recognised_of_sameIgnoringCase hsame
  exact ⟨hsame, by decide +kernel, hclauses, by decide +kernel, hplaceholders, by decide +kernel,
    hupper 53, by decide +kernel, hjoining _⟩

end SameIgnoringCase

end SqlTemplate
