import SqlTemplate.Clause.Reading
import SqlTemplate.Keyword.FreeStanding
import SqlTemplate.Proofs.Keyword.Spelling

namespace SqlTemplate

namespace Operator

theorem isInfix_tail_letters {operator other : Operator}
    (hwithin : other.letters <:+: operator.letters.tail) :
    operator = lessOrEqual ∨ operator = greaterOrEqual := by
  revert hwithin
  cases operator <;> cases other <;> decide

theorem take?_cons_eq_none {c : Char} {cs : List Char}
    (hhead : ∀ operator : Operator, operator.letters.head? ≠ some (foldedCapital c)) :
    take? (c :: cs) = none := by
  rw [Option.eq_none_iff_forall_ne_some]
  rintro ⟨word, rest⟩ htake
  obtain ⟨happend, operator, hspells⟩ := exists_spells_of_take? htake
  obtain ⟨d, ds, rfl⟩ := List.exists_cons_of_ne_nil (Spells.ne_nil hspells)
  obtain ⟨rfl, _⟩ := List.cons.inj happend
  exact hhead operator (by rw [← hspells]; rfl)

namespace Spells

variable {word : List Char} {operator : Operator}

theorem mem_letters (hspells : Spells word operator) {c : Char} (hc : c ∈ word) :
    foldedCapital c ∈ operator.letters :=
  hspells ▸ List.mem_map_of_mem hc

/-- No operator contains a character that is no letter and no sign of comparison. -/
theorem not_mem_of_not_letter (hspells : Spells word operator) {c : Char}
    (hletter : isFoldedLetter c = false) (hsign : c ∉ ['<', '=', '>']) : c ∉ word := by
  intro hc
  have hmem := hspells.mem_letters hc
  rw [foldedCapital_of_not_letter hletter] at hmem
  have hkinds : ∀ k ∈ operator.letters, k.isAlpha ∨ k ∈ ['<', '=', '>'] := by
    cases operator <;> simp [letters]
  obtain halpha | hsigned := hkinds c hmem
  · simp [isFoldedLetter_of_isAlpha halpha] at hletter
  · exact hsign hsigned

theorem not_isBlank (hspells : Spells word operator) : ∀ c ∈ word, isBlank c = false := by
  intro c hc
  by_contra hblank
  have hpart := isNamePart_of_isBlank (by simpa using hblank)
  simp only [isNamePart, Bool.or_eq_false_iff] at hpart
  refine hspells.not_mem_of_not_letter hpart.1.1 ?_ hc
  rintro hsign
  simp only [List.mem_cons, List.not_mem_nil, or_false] at hsign
  obtain rfl | rfl | rfl := hsign <;> exact hblank rfl

theorem colon_not_mem (hspells : Spells word operator) : ':' ∉ word :=
  hspells.not_mem_of_not_letter rfl (by decide)

end Spells

end Operator

namespace Clause

/-- The characters of a dotted path. -/
def IsPathChar (c : Char) : Prop :=
  isColumnChar c ∨ c = '.'

theorem IsPathChar.not_isBlank {c : Char} (hpath : IsPathChar c) : isBlank c = false := by
  by_contra hblank
  obtain hcolumn | rfl := hpath
  · have hpart := isNamePart_of_isBlank (by simpa using hblank)
    simp [isColumnChar, hpart] at hcolumn
  · exact hblank rfl

theorem not_isPathChar_colon : ¬ IsPathChar ':' := by
  rintro (hcolumn | heq)
  · exact absurd hcolumn (by decide)
  · exact absurd heq (by decide)

theorem IsPathChar.not_sign {c : Char} (hpath : IsPathChar c) :
    foldedCapital c ∉ ['<', '=', '>'] := by
  intro hsign
  cases hletter : isFoldedLetter c with
  | true =>
    rw [← isAlpha_foldedCapital] at hletter
    simp only [List.mem_cons, List.not_mem_nil, or_false] at hsign
    obtain heq | heq | heq := hsign <;> rw [heq] at hletter <;> exact absurd hletter (by decide)
  | false =>
    rw [foldedCapital_of_not_letter hletter] at hsign
    simp only [List.mem_cons, List.not_mem_nil, or_false] at hsign
    obtain hcolumn | hdot := hpath
    · obtain rfl | rfl | rfl := hsign <;> exact absurd hcolumn (by decide)
    · obtain rfl | rfl | rfl := hsign <;> exact absurd hdot (by decide)

/-- Dotted paths; within a segment the path may end. -/
def IsPathFrom : Bool → List Char → Prop
  | inSegment, [] => inSegment = true
  | inSegment, c :: cs =>
    (isColumnChar c = true ∧ IsPathFrom true cs) ∨
      (isColumnChar c = false ∧ inSegment = true ∧ c = '.' ∧ IsPathFrom false cs)

theorem IsPathFrom.isPathChar {inSegment : Bool} {path : List Char}
    (hpath : IsPathFrom inSegment path) : ∀ c ∈ path, IsPathChar c := by
  induction path generalizing inSegment with
  | nil => simp
  | cons c cs ih =>
    intro d hd
    obtain ⟨hcolumn, htail⟩ | ⟨_, _, rfl, htail⟩ := hpath
    · obtain rfl | hd := List.mem_cons.1 hd
      · exact .inl hcolumn
      · exact ih htail d hd
    · obtain rfl | hd := List.mem_cons.1 hd
      · exact .inr rfl
      · exact ih htail d hd

theorem IsPathFrom.ne_nil {path : List Char} (hpath : IsPathFrom false path) : path ≠ [] := by
  rintro rfl
  cases hpath

private theorem path_eq_nil_of_ends {α : Type} {next : List Char → Option α} {inSegment : Bool}
    {rest path : List Char} {value : α}
    (hends : (if inSegment then (next rest).map (([], ·)) else none) = some (path, value)) :
    path = [] ∧ inSegment = true := by
  split at hends
  · next hsegment =>
    obtain ⟨_, _, heq⟩ := Option.map_eq_some_iff.1 hends
    obtain ⟨rfl, _⟩ := Prod.mk.inj heq
    exact ⟨rfl, hsegment⟩
  · simp at hends

theorem isPathFrom_of_longestPath? {α : Type} {next : List Char → Option α} {inSegment : Bool}
    {text path : List Char} {value : α}
    (hpath : longestPath? next inSegment text = some (path, value)) :
    IsPathFrom inSegment path := by
  induction text generalizing inSegment path with
  | nil =>
    obtain ⟨rfl, hsegment⟩ := path_eq_nil_of_ends hpath
    exact hsegment
  | cons c cs ih =>
    simp only [longestPath?] at hpath
    split at hpath
    · next tail found hlonger =>
      obtain ⟨rfl, rfl⟩ := Prod.mk.inj (Option.some.inj hpath)
      split at hlonger
      · next hcolumn => exact .inl ⟨hcolumn, ih hlonger⟩
      · next hcolumn =>
        split at hlonger
        · next hdot =>
          simp only [Bool.and_eq_true, beq_iff_eq] at hdot
          exact .inr ⟨by simpa using hcolumn, hdot.1, hdot.2, ih hlonger⟩
        · simp at hlonger
    · obtain ⟨rfl, hsegment⟩ := path_eq_nil_of_ends hpath
      exact hsegment

/-- Where some path leaves what is wanted behind it, a path is found. -/
theorem isSome_longestPath? {α : Type} {next : List Char → Option α} {inSegment : Bool}
    {path rest : List Char} (hpath : IsPathFrom inSegment path) (hnext : (next rest).isSome) :
    (longestPath? next inSegment (path ++ rest)).isSome := by
  induction path generalizing inSegment with
  | nil =>
    have hsegment : inSegment = true := hpath
    obtain ⟨value, hvalue⟩ := Option.isSome_iff_exists.1 hnext
    subst hsegment
    cases rest with
    | nil => simp [longestPath?, hvalue]
    | cons d ds =>
      simp only [List.nil_append, longestPath?, hvalue]
      split <;> simp
  | cons c cs ih =>
    obtain ⟨hcolumn, htail⟩ | ⟨hcolumn, rfl, rfl, htail⟩ := hpath
    · obtain ⟨found, hfound⟩ := Option.isSome_iff_exists.1 (ih htail)
      simp [longestPath?, hcolumn, hfound]
    · obtain ⟨found, hfound⟩ := Option.isSome_iff_exists.1 (ih htail)
      simp [longestPath?, hcolumn, hfound]

namespace Comparison

/-- Every part of a comparison is what it is called. -/
structure WellFormed (comparison : Comparison) : Prop where
  blanksBefore : ∀ c ∈ comparison.blanksBefore, isBlank c
  operator : ∃ operator, Operator.Spells comparison.operator operator
  blanksAfter : ∀ c ∈ comparison.blanksAfter, isBlank c
  placeholder : IsName isFoldedLetter comparison.placeholder

/-- A comparison is read just if the text begins with it and with the whole of its name. -/
theorem read?_eq_some_iff {text : List Char} {comparison : Comparison} :
    read? text = some comparison ↔
      ∃ rest, text = comparison.written ++ rest ∧ comparison.WellFormed ∧
        EndsName isFoldedLetter rest := by
  constructor
  · intro hread
    unfold read? at hread
    split at hread
    · simp at hread
    · next operator rest htake =>
      split at hread
      · next name hcolon =>
        obtain ⟨⟨placeholder, after⟩, hname, rfl⟩ := Option.map_eq_some_iff.1 hread
        obtain ⟨rfl, hisName, hends⟩ := takeName?_eq_some_iff.1 hname
        obtain ⟨hoperator, hspells⟩ := Operator.exists_spells_of_take? htake
        refine ⟨after, ?_, ⟨?_, hspells, ?_, hisName⟩, hends⟩
        · calc text
            _ = text.takeWhile isBlank ++ text.dropWhile isBlank :=
              List.takeWhile_append_dropWhile.symm
            _ = text.takeWhile isBlank ++
                  (operator ++ (rest.takeWhile isBlank ++ rest.dropWhile isBlank)) := by
              rw [hoperator, List.takeWhile_append_dropWhile]
            _ = _ := by simp [hcolon, written]
        · exact fun c hc => List.mem_takeWhile_imp hc
        · exact fun c hc => List.mem_takeWhile_imp hc
      · simp at hread
  · rintro ⟨after, rfl, ⟨hbefore, ⟨operator, hspells⟩, hafter, hname⟩, hends⟩
    obtain ⟨blanksBefore, token, blanksAfter, placeholder⟩ := comparison
    simp only at hbefore hspells hafter hname
    obtain ⟨c, cs, rfl⟩ := List.exists_cons_of_ne_nil hspells.ne_nil
    have hhead := hspells.not_isBlank c List.mem_cons_self
    have hbehind : ∀ d ∈ (blanksAfter ++ ':' :: (placeholder ++ after)).head?,
        foldedCapital d ≠ '=' := by
      intro d hd heq
      cases blanksAfter with
      | nil =>
        obtain rfl : ':' = d := by simpa using hd
        exact absurd heq (by decide)
      | cons b bs =>
        obtain rfl : b = d := by simpa using hd
        have hpart := isNamePart_of_isBlank (hafter b List.mem_cons_self)
        simp only [isNamePart, Bool.or_eq_false_iff] at hpart
        rw [foldedCapital_of_not_letter hpart.1.1] at heq
        subst heq
        exact absurd (hafter '=' List.mem_cons_self) (by decide)
    obtain ⟨htake₁, hdrop₁⟩ := takeWhile_append_of_stops
      ((c :: cs) ++ (blanksAfter ++ ':' :: (placeholder ++ after))) hbefore (by simpa using hhead)
    obtain ⟨htake₂, hdrop₂⟩ := takeWhile_append_of_stops
      (':' :: (placeholder ++ after)) hafter (by simp; decide)
    have htext : (⟨blanksBefore, c :: cs, blanksAfter, placeholder⟩ : Comparison).written ++ after =
        blanksBefore ++ ((c :: cs) ++ (blanksAfter ++ ':' :: (placeholder ++ after))) := by
      simp [written]
    rw [htext, read?, hdrop₁, Operator.take?_of_spells hspells hbehind]
    simp only [hdrop₂, takeName?_eq_some_iff.2 ⟨rfl, hname, hends⟩, Option.map_some, htake₁, htake₂]

theorem written_append (comparison : Comparison) (rest : List Char) :
    comparison.written ++ rest = comparison.blanksBefore ++ (comparison.operator ++
      (comparison.blanksAfter ++ ':' :: (comparison.placeholder ++ rest))) := by
  simp [written]

/-- What stands between an operator and the name behind it is no part of a path. -/
private theorem not_isPathChar_head {blanks rest : List Char} (hblanks : ∀ c ∈ blanks, isBlank c)
    {c : Char} (hc : c ∈ (blanks ++ ':' :: rest).head?) : ¬ IsPathChar c := by
  intro hpath
  cases blanks with
  | nil =>
    obtain rfl : ':' = c := by simpa using hc
    exact not_isPathChar_colon hpath
  | cons b bs =>
    obtain rfl : b = c := by simpa using hc
    simp [hpath.not_isBlank] at hblanks

theorem read?_eq_none_of_colon {blanks rest : List Char} (hblanks : ∀ c ∈ blanks, isBlank c) :
    read? (blanks ++ ':' :: rest) = none := by
  obtain ⟨_, hdrop⟩ := takeWhile_append_of_stops (':' :: rest) hblanks (by simp; decide)
  have htake : Operator.take? (':' :: rest) = none :=
    Operator.take?_cons_eq_none fun operator => by cases operator <;> decide
  simp [read?, hdrop, htake]

/-- Behind the beginning of an operator no other operator begins. -/
private theorem read?_eq_none_within_operator {token front back blanks rest : List Char}
    {operator : Operator} (hspells : Operator.Spells token operator) (htoken : token = front ++ back)
    (hfront : front ≠ []) (hpath : ∀ c ∈ front, IsPathChar c) (hback : back ≠ [])
    (hblanks : ∀ c ∈ blanks, isBlank c) :
    read? (back ++ (blanks ++ ':' :: rest)) = none := by
  rw [Option.eq_none_iff_forall_ne_some]
  intro inner hinner
  obtain ⟨after, htext, ⟨hbefore, ⟨operator', hspells'⟩, _, _⟩, _⟩ := read?_eq_some_iff.1 hinner
  obtain ⟨c, cs, rfl⟩ := List.exists_cons_of_ne_nil hback
  obtain ⟨d, ds, rfl⟩ := List.exists_cons_of_ne_nil hfront
  have hnoBlanks : inner.blanksBefore = [] := by
    cases hinnerBlanks : inner.blanksBefore with
    | nil => rfl
    | cons b bs =>
      rw [written_append, hinnerBlanks] at htext
      obtain ⟨rfl, _⟩ := List.cons.inj htext
      have hblank := hbefore c (by simp [hinnerBlanks])
      simp [hspells.not_isBlank c (by simp [htoken])] at hblank
  rw [written_append, hnoBlanks, List.nil_append] at htext
  have hinside : ∃ tail, c :: cs = inner.operator ++ tail := by
    obtain ⟨tail, hlonger, hrest⟩ | ⟨tail, hshorter, _⟩ := List.append_eq_append_iff.1 htext
    · cases tail with
      | nil => exact ⟨[], by simpa using hlonger.symm⟩
      | cons t ts =>
        -- The inner operator would go on over a blank or a colon.
        exfalso
        have hmem : t ∈ inner.operator := by simp [hlonger]
        cases blanks with
        | nil =>
          obtain ⟨rfl, _⟩ := List.cons.inj hrest
          exact hspells'.colon_not_mem hmem
        | cons b bs =>
          obtain ⟨rfl, _⟩ := List.cons.inj hrest
          have hblank := hblanks b List.mem_cons_self
          simp [hspells'.not_isBlank b hmem] at hblank
    · exact ⟨tail, hshorter⟩
  obtain ⟨tail, htail⟩ := hinside
  have hwithin : operator'.letters <:+: operator.letters.tail := by
    refine ⟨ds.map foldedCapital, tail.map foldedCapital, ?_⟩
    rw [← hspells, ← hspells', htoken, htail]
    simp
  have hhead : operator.letters.head? = some (foldedCapital d) := by
    rw [← hspells, htoken]
    rfl
  have hsign := (hpath d List.mem_cons_self).not_sign
  obtain rfl | rfl := Operator.isInfix_tail_letters hwithin
  · obtain heq : '<' = foldedCapital d := by simpa [Operator.letters] using hhead
    exact hsign (by simp [← heq])
  · obtain heq : '>' = foldedCapital d := by simpa [Operator.letters] using hhead
    exact hsign (by simp [← heq])

/-- A comparison that can be read where a path goes on leaves none behind that path: its operator
begins in the path. -/
theorem read?_eq_none_of_path {path rest : List Char} (hne : path ≠ [])
    (hpath : ∀ c ∈ path, IsPathChar c) (hread : (read? (path ++ rest)).isSome) :
    read? rest = none := by
  obtain ⟨whole, hwhole⟩ := Option.isSome_iff_exists.1 hread
  obtain ⟨after, htext, ⟨hbefore, ⟨operator, hspells⟩, hafter, _⟩, _⟩ := read?_eq_some_iff.1 hwhole
  rw [written_append] at htext
  have hnoBlanks : whole.blanksBefore = [] := by
    obtain ⟨c, cs, rfl⟩ := List.exists_cons_of_ne_nil hne
    cases hblanks : whole.blanksBefore with
    | nil => rfl
    | cons b bs =>
      rw [hblanks] at htext
      obtain ⟨rfl, _⟩ := List.cons.inj htext
      have hblank := hbefore c (by simp [hblanks])
      simp [(hpath c List.mem_cons_self).not_isBlank] at hblank
  rw [hnoBlanks, List.nil_append] at htext
  obtain ⟨tail, htoken, rfl⟩ | ⟨tail, hlonger, hrest⟩ := List.append_eq_append_iff.1 htext
  · cases tail with
    | nil => exact read?_eq_none_of_colon hafter
    | cons t ts => exact read?_eq_none_within_operator hspells htoken hne hpath (by simp) hafter
  · cases tail with
    | nil =>
      rw [List.nil_append] at hrest
      rw [← hrest]
      exact read?_eq_none_of_colon hafter
    | cons t ts =>
      exact absurd (hpath t (by simp [hlonger]))
        (not_isPathChar_head hafter (by rw [hrest]; simp))

end Comparison

/-- The path of a clause is the only one that leaves a comparison behind it. -/
theorem longestPath?_eq_some {path rest : List Char} {comparison : Comparison}
    (hpath : IsPathFrom false path) (hread : Comparison.read? rest = some comparison) :
    longestPath? Comparison.read? false (path ++ rest) = some (path, comparison) := by
  have hnext : (Comparison.read? rest).isSome := by simp [hread]
  obtain ⟨⟨path', comparison'⟩, hlongest⟩ :=
    Option.isSome_iff_exists.1 (isSome_longestPath? hpath hnext)
  have hpath' := isPathFrom_of_longestPath? hlongest
  obtain ⟨rest', htext, hread'⟩ := exists_append_of_longestPath? hlongest
  have hnext' : (Comparison.read? rest').isSome := by simp [hread']
  have hsame : path = path' ∧ rest = rest' := by
    obtain ⟨gap, hlong, hrest⟩ | ⟨gap, hlong, hrest⟩ := List.append_eq_append_iff.1 htext
    · by_cases hgap : gap = []
      · exact ⟨by simp [hlong, hgap], by simp [hrest, hgap]⟩
      · rw [hrest] at hnext
        have hnone := Comparison.read?_eq_none_of_path hgap
          (fun c hc => hpath'.isPathChar c (by simp [hlong, hc])) hnext
        simp [hnone] at hread'
    · by_cases hgap : gap = []
      · exact ⟨by simp [hlong, hgap], by simp [hrest, hgap]⟩
      · rw [hrest] at hnext'
        have hnone := Comparison.read?_eq_none_of_path hgap
          (fun c hc => hpath.isPathChar c (by simp [hlong, hc])) hnext'
        simp [hnone] at hread
  obtain ⟨rfl, rfl⟩ := hsame
  rw [hread] at hread'
  rw [hlongest, Option.some.inj hread']

namespace Reading

/-- Every part of a clause is what it is called. -/
structure WellFormed (reading : Reading) : Prop where
  keyword : Connector.Spells reading.keyword reading.connector
  column : IsPathFrom false reading.column
  comparison : reading.comparison.WellFormed

/-- A clause begins with a letter. -/
theorem WellFormed.exists_cons {reading : Reading} (hwell : reading.WellFormed) :
    ∃ c cs, reading.written = c :: cs ∧ c.isAlpha := by
  obtain ⟨c, cs, hkeyword⟩ := List.exists_cons_of_ne_nil hwell.keyword.ne_nil
  have hletter := hwell.keyword.isAlpha c (by rw [hkeyword]; exact List.mem_cons_self)
  rw [Reading.written, hkeyword]
  exact ⟨c, _, rfl, hletter⟩

/-- A clause is read just if the text begins with it and with the whole of its name. That the column
is read as far as it can be does not matter: only one end of the path leaves a comparison behind it.
-/
theorem read?_eq_some_iff {text : List Char} {reading : Reading} :
    read? text = some reading ↔
      ∃ rest, text = reading.written ++ rest ∧ reading.WellFormed ∧
        EndsName isFoldedLetter rest := by
  constructor
  · intro hread
    unfold read? at hread
    split at hread
    · next connector keyword rest htake =>
      obtain ⟨⟨column, comparison⟩, hlongest, rfl⟩ := Option.map_eq_some_iff.1 hread
      have hpath := isPathFrom_of_longestPath? hlongest
      obtain ⟨tail, rfl, hcomparison⟩ := exists_append_of_longestPath? hlongest
      obtain ⟨after, rfl, hwell, hends⟩ := Comparison.read?_eq_some_iff.1 hcomparison
      obtain ⟨htext, hspells⟩ := Connector.take?_eq_some_iff.1 htake
      exact ⟨after, by simp [htext, written], ⟨hspells, hpath, hwell⟩, hends⟩
    · simp at hread
  · rintro ⟨rest, rfl, ⟨hspells, hpath, hwell⟩, hends⟩
    have htext : reading.written ++ rest =
        reading.keyword ++ ' ' :: (reading.column ++ (reading.comparison.written ++ rest)) := by
      simp [written]
    have hcomparison := Comparison.read?_eq_some_iff.2 ⟨rest, rfl, hwell, hends⟩
    rw [htext, read?, Connector.take?_eq_some_iff.2 ⟨rfl, hspells⟩]
    simp only [longestPath?_eq_some hpath hcomparison, Option.map_some]

end Reading

theorem recogniser_read?_eq_some_iff {before : Option Char} {text written : List Char}
    {reading : Reading} :
    recogniser.read? before text = some (written, reading) ↔
      Connector.isWordBeside before = false ∧ written = reading.written ∧
        ∃ rest, text = written ++ rest ∧ reading.WellFormed ∧ EndsName isFoldedLetter rest := by
  have hread : recogniser.read? before text =
      if Connector.isWordBeside before then none
      else (Reading.read? text).map fun reading => (reading.written, reading) := rfl
  rw [hread]
  cases hbefore : Connector.isWordBeside before with
  | true => simp
  | false =>
    simp only [Bool.false_eq_true, if_false, Option.map_eq_some_iff, Prod.mk.injEq]
    constructor
    · rintro ⟨found, hfound, rfl, rfl⟩
      exact ⟨trivial, rfl, Reading.read?_eq_some_iff.1 hfound⟩
    · rintro ⟨_, rfl, hrest⟩
      exact ⟨reading, Reading.read?_eq_some_iff.2 hrest, rfl, rfl⟩

end Clause

end SqlTemplate
