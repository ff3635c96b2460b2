import SqlTemplate.Proofs.Filter.Written

namespace SqlTemplate

open Connector

/-- A word in front of a space begins what stands in front of that space. -/
theorem exists_append_of_space {word rest text text' : List Char} (hword : ' ' ∉ word)
    (happend : word ++ rest = text ++ ' ' :: text') :
    ∃ gap, text = word ++ gap ∧ rest = gap ++ ' ' :: text' := by
  obtain ⟨gap, htext, hrest⟩ | ⟨gap, hlonger, hrest⟩ := List.append_eq_append_iff.1 happend
  · exact ⟨gap, htext, hrest⟩
  · cases gap with
    | nil => exact ⟨[], by simpa using hlonger.symm, hrest.symm⟩
    | cons c cs =>
      obtain ⟨rfl, _⟩ := List.cons.inj hrest
      exact absurd (by simp [hlonger]) hword

namespace Connector

theorem not_isInfix_letters (connector : Connector) (operator : Operator) :
    ¬ operator.letters <:+: connector.letters := by
  cases connector <;> cases operator <;> decide

theorem not_isSuffix_letters (connector : Connector) (operator : Operator) :
    ¬ connector.letters <:+ operator.letters := by
  cases connector <;> cases operator <;> decide

theorem Spells.not_mem_of_not_letter {word : List Char} {connector : Connector}
    (hspells : Spells word connector) {c : Char} (hletter : c.isAlpha = false) : c ∉ word := by
  intro hc
  rw [hspells.isAlpha c hc] at hletter
  cases hletter

end Connector

namespace Clause

theorem Reading.colon_mem_written (reading : Reading) : ':' ∈ reading.written := by
  simp [Reading.written, Comparison.written]

/-- A clause begins with a letter. -/
theorem recogniser_read?_eq_none_of_not_letter {before : Option Char} {c : Char} {cs : List Char}
    (hletter : c.isAlpha = false) : recogniser.read? before (c :: cs) = none := by
  rw [Option.eq_none_iff_forall_ne_some]
  rintro ⟨written, reading⟩ hread
  obtain ⟨_, rfl, rest, happend, hwell, _⟩ := recogniser_read?_eq_some_iff.1 hread
  obtain ⟨d, ds, hkeyword⟩ := List.exists_cons_of_ne_nil hwell.keyword.ne_nil
  simp only [Reading.written, hkeyword, List.cons_append] at happend
  obtain ⟨rfl, _⟩ := List.cons.inj happend
  rw [hwell.keyword.isAlpha c (by simp [hkeyword])] at hletter
  cases hletter

/-- Where no colon follows, no clause is read. -/
theorem recogniser_read?_eq_none_of_noColon {before : Option Char} {text : List Char}
    (hcolon : ':' ∉ text) : recogniser.read? before text = none := by
  rw [Option.eq_none_iff_forall_ne_some]
  rintro ⟨written, reading⟩ hread
  obtain ⟨_, rfl, rest, rfl, _⟩ := recogniser_read?_eq_some_iff.1 hread
  exact hcolon (List.mem_append_left _ reading.colon_mem_written)

theorem unread_of_not_letter {before : Option Char} {text rest : List Char}
    (hletters : ∀ c ∈ text, c.isAlpha = false) : recogniser.Unread before text rest := by
  rintro front c back rfl
  exact recogniser_read?_eq_none_of_not_letter (hletters c (by simp))

theorem unread_of_noColon {before : Option Char} {text : List Char} (hcolon : ':' ∉ text) :
    recogniser.Unread before text [] := by
  rintro front c back rfl
  rw [List.append_nil]
  refine recogniser_read?_eq_none_of_noColon fun hmem => hcolon ?_
  rw [List.mem_append]
  exact .inr hmem

/-- Within a word no clause begins. -/
theorem unread_within_word {c : Char} {text rest : List Char} (hc : isWordChar c)
    (htext : ∀ d ∈ text, isWordChar d) : recogniser.Unread (some c) text rest := by
  rintro front d back rfl
  rw [Option.eq_none_iff_forall_ne_some]
  rintro ⟨written, reading⟩ hread
  have hfree := (recogniser_read?_eq_some_iff.1 hread).1
  have hword : isWordBeside (lastFrom (some c) front) = true := by
    obtain rfl | hne := eq_or_ne front []
    · exact hc
    · obtain ⟨e, he, hlast⟩ := lastFrom_mem (some c) hne
      rw [hlast]
      exact htext e (List.mem_append_left _ he)
  rw [hword] at hfree
  cases hfree

namespace Comparison

/-- A comparison has no digit in front of its colon. -/
theorem read?_eq_none_of_digit {text : List Char} {front rest : List Char} {c : Char}
    (htext : text = front ++ c :: rest) (hcolon : ':' ∉ front) (hdigit : c.isDigit) :
    read? text = none := by
  rw [Option.eq_none_iff_forall_ne_some]
  intro comparison hread
  obtain ⟨after, hwritten, ⟨hbefore, ⟨operator, hspells⟩, hafter, _⟩, _⟩ :=
    read?_eq_some_iff.1 hread
  have hnotBlank : isBlank c = false := by
    by_contra hblank
    have hpart := isNamePart_of_isBlank (eq_true_of_ne_false hblank)
    simp [isNamePart, hdigit] at hpart
  have hsign : c ∉ ['<', '=', '>'] := by
    intro hmem
    simp only [List.mem_cons, List.not_mem_nil, or_false] at hmem
    obtain rfl | rfl | rfl := hmem <;> exact absurd hdigit (by decide)
  have hparts : (comparison.blanksBefore ++ comparison.operator ++ comparison.blanksAfter) ++
      (':' :: (comparison.placeholder ++ after)) = front ++ c :: rest := by
    rw [← htext, hwritten, written_append]
    simp
  obtain ⟨gap, hfront, hgap⟩ | ⟨gap, hlonger, hgap⟩ := List.append_eq_append_iff.1 hparts
  · cases gap with
    | nil =>
      obtain ⟨rfl, _⟩ := List.cons.inj hgap
      exact absurd hdigit (by decide)
    | cons d ds =>
      obtain ⟨rfl, _⟩ := List.cons.inj hgap
      exact hcolon (by simp [hfront])
  · cases gap with
    | nil =>
      obtain ⟨rfl, _⟩ := List.cons.inj hgap
      exact absurd hdigit (by decide)
    | cons d ds =>
      obtain ⟨rfl, _⟩ := List.cons.inj hgap
      have hmem : c ∈ comparison.blanksBefore ++ comparison.operator ++ comparison.blanksAfter := by
        simp [hlonger]
      obtain hmem | hmem := List.mem_append.1 hmem
      · obtain hmem | hmem := List.mem_append.1 hmem
        · simp [hbefore c hmem] at hnotBlank
        · exact hspells.not_mem_of_not_letter (isFoldedLetter_of_isDigit hdigit) hsign hmem
      · simp [hafter c hmem] at hnotBlank

/-- Behind a space nothing else is read than without it. -/
theorem isSome_read?_of_space {text : List Char} (hread : (read? (' ' :: text)).isSome) :
    (read? text).isSome := by
  obtain ⟨comparison, hcomparison⟩ := Option.isSome_iff_exists.1 hread
  obtain ⟨rest, htext, hwell, hends⟩ := read?_eq_some_iff.1 hcomparison
  rw [written_append] at htext
  cases hblanks : comparison.blanksBefore with
  | nil =>
    obtain ⟨operator, hspells⟩ := hwell.operator
    obtain ⟨c, cs, hoperator⟩ := List.exists_cons_of_ne_nil hspells.ne_nil
    rw [hblanks, hoperator] at htext
    obtain ⟨rfl, _⟩ := List.cons.inj htext
    exact absurd (hspells.not_isBlank ' ' (by simp [hoperator])) (by decide)
  | cons c cs =>
    rw [hblanks] at htext
    obtain ⟨rfl, rfl⟩ := List.cons.inj htext
    refine Option.isSome_iff_exists.2 ⟨{ comparison with blanksBefore := cs },
      read?_eq_some_iff.2 ⟨rest, by rw [written_append]; rfl, ?_, hends⟩⟩
    refine ⟨fun d hd => hwell.blanksBefore d ?_, hwell.operator, hwell.blanksAfter,
      hwell.placeholder⟩
    rw [hblanks]
    exact List.mem_cons_of_mem _ hd

/-- A connector and a space do not begin a comparison, if none follows them. -/
theorem read?_eq_none_of_keyword {tail text : List Char} {connector : Connector}
    {init keyword : List Char} (hspells : Spells keyword connector) (hkeyword : keyword = init ++ tail)
    (hnone : read? text = none) : read? (tail ++ ' ' :: text) = none := by
  by_contra hread
  obtain ⟨comparison, hcomparison⟩ := Option.ne_none_iff_exists'.1 hread
  obtain ⟨rest, htext, hwell, _⟩ := read?_eq_some_iff.1 hcomparison
  cases tail with
  | nil =>
    have hsome := isSome_read?_of_space (Option.isSome_iff_exists.2 ⟨_, hcomparison⟩)
    simp [hnone] at hsome
  | cons c cs =>
    obtain ⟨operator, hoperator⟩ := hwell.operator
    rw [written_append] at htext
    have hnoBlanks : comparison.blanksBefore = [] := by
      cases hblanks : comparison.blanksBefore with
      | nil => rfl
      | cons b bs =>
        rw [hblanks] at htext
        obtain ⟨rfl, _⟩ := List.cons.inj htext
        have hword := hspells.isWordChar c (by simp [hkeyword])
        rw [isWordChar_of_isBlank (hwell.blanksBefore c (by simp [hblanks]))] at hword
        cases hword
    rw [hnoBlanks, List.nil_append] at htext
    obtain ⟨gap, hlonger, hgap⟩ | ⟨gap, hshorter, _⟩ := List.append_eq_append_iff.1 htext
    · cases gap with
      | nil =>
        refine not_isInfix_letters connector operator ⟨init.map foldedCapital, [], ?_⟩
        rw [← hspells, ← hoperator, hkeyword, hlonger]
        simp
      | cons d ds =>
        obtain ⟨rfl, _⟩ := List.cons.inj hgap
        exact absurd (hoperator.not_isBlank ' ' (by simp [hlonger])) (by decide)
    · refine not_isInfix_letters connector operator
        ⟨init.map foldedCapital, gap.map foldedCapital, ?_⟩
      rw [← hspells, ← hoperator, hkeyword, hshorter]
      simp

end Comparison

/-- What follows a connector does not make it a clause. -/
def NoTail (rest : List Char) : Prop :=
  ∀ text, rest = ' ' :: text → longestPath? Comparison.read? false text = none

theorem noTail_of_noColon {rest : List Char} (hcolon : ':' ∉ rest) : NoTail rest := by
  rintro text rfl
  rw [Option.eq_none_iff_forall_ne_some]
  rintro ⟨path, comparison⟩ hpath
  obtain ⟨tail, rfl, hread⟩ := exists_append_of_longestPath? hpath
  obtain ⟨after, rfl, _⟩ := Comparison.read?_eq_some_iff.1 hread
  exact hcolon (by simp [Comparison.written])

/-- At a whole word no clause is read, if nothing behind the word makes it one. -/
theorem unread_word {before : Option Char} {word rest : List Char}
    (hword : ∀ c ∈ word, isNamePart isFoldedLetter c) (hends : EndsName isFoldedLetter rest)
    (hnoTail : NoTail rest) : recogniser.Unread before word rest := by
  cases hshape : word with
  | nil => exact recogniser.unread_nil before rest
  | cons c cs =>
    refine recogniser.unread_cons ?_ (unread_within_word (isWordChar_of_isNamePart (hword c ?_))
      fun d hd => isWordChar_of_isNamePart (hword d ?_))
    · rw [Option.eq_none_iff_forall_ne_some]
      rintro ⟨written, reading⟩ hread
      obtain ⟨_, rfl, after, htext, hwell, hafter⟩ := recogniser_read?_eq_some_iff.1 hread
      have hwritten : word ++ rest = reading.keyword ++
          ' ' :: (reading.column ++ (reading.comparison.written ++ after)) := by
        rw [hshape, List.cons_append, htext]
        simp [Reading.written]
      have hbehind : rest = ' ' :: (reading.column ++ (reading.comparison.written ++ after)) := by
        obtain ⟨gap, hlonger, hgap⟩ | ⟨gap, hshorter, hgap⟩ := List.append_eq_append_iff.1 hwritten
        · cases gap with
          | nil => exact hgap
          | cons d ds =>
            have hpart := hwell.keyword.isNamePart d (by simp [hlonger])
            rw [hends d (by rw [hgap]; rfl)] at hpart
            cases hpart
        · cases gap with
          | nil => exact hgap.symm
          | cons d ds =>
            obtain ⟨rfl, _⟩ := List.cons.inj hgap
            exact absurd (hword ' ' (by simp [hshorter])) (by decide)
      have hread' := Comparison.read?_eq_some_iff.2 ⟨after, rfl, hwell.comparison, hafter⟩
      have hnone := hnoTail _ hbehind
      rw [longestPath?_eq_some hwell.column hread'] at hnone
      cases hnone
    · simp [hshape]
    · simp [hshape, hd]

/-- Where a digit comes before any colon, behind a space that no connector ends at, no clause is
read. -/
theorem unread_of_digit {before : Option Char} {body front rest : List Char} {c : Char}
    (hbody : ':' ∉ body)
    (hends : ∀ init word connector, body = init ++ word → ¬ Spells word connector)
    (hfront : ':' ∉ front) (hdigit : c.isDigit) :
    recogniser.Unread before body (' ' :: (front ++ c :: rest)) := by
  rintro init d back rfl
  rw [Option.eq_none_iff_forall_ne_some]
  rintro ⟨written, reading⟩ hread
  obtain ⟨_, rfl, after, hafter, hwell, hstops⟩ := recogniser_read?_eq_some_iff.1 hread
  have hwritten : reading.keyword ++
      ' ' :: (reading.column ++ (reading.comparison.written ++ after)) =
        (d :: back) ++ ' ' :: (front ++ c :: rest) := by
    rw [List.cons_append, hafter]
    simp [Reading.written]
  obtain ⟨gap, hback, hgap⟩ :=
    exists_append_of_space (hwell.keyword.not_mem_of_not_letter rfl) hwritten
  cases gap with
  | nil =>
    rw [List.append_nil] at hback
    exact hends init reading.keyword _ (by rw [hback]) hwell.keyword
  | cons e es =>
    obtain ⟨rfl, hcolumn⟩ := List.cons.inj hgap
    have hspace : ' ' ∉ reading.column := fun hmem =>
      absurd (hwell.column.isPathChar ' ' hmem).not_isBlank (by decide)
    obtain ⟨gap, rfl, hcomparison⟩ := exists_append_of_space hspace hcolumn
    have hread' := Comparison.read?_eq_some_iff.2 ⟨after, rfl, hwell.comparison, hstops⟩
    have hdigits : reading.comparison.written ++ after = (gap ++ ' ' :: front) ++ c :: rest := by
      simpa using hcomparison
    have hcolon : ':' ∉ gap ++ ' ' :: front := by
      rw [hback] at hbody
      simp only [List.mem_append, List.mem_cons, not_or] at hbody ⊢
      exact ⟨hbody.2.2.2.2, by decide, hfront⟩
    rw [Comparison.read?_eq_none_of_digit hdigits hcolon hdigit] at hread'
    cases hread'

end Clause

namespace Filter

open Clause

/-- A bound is no clause, and what follows it does not make its name one. -/
theorem Bound.unread_written (bound : Bound) {before : Option Char} {rest : List Char}
    (hends : EndsName isFoldedLetter rest) (hnoTail : NoTail rest) :
    recogniser.Unread before bound.written rest := by
  have hblanks : recogniser.Unread before bound.blanks (bound.stretch ++ rest) := by
    refine unread_of_not_letter fun c hc => ?_
    by_contra hletter
    have hpart := isNamePart_of_isFoldedLetter
      (isFoldedLetter_of_isAlpha (eq_true_of_ne_false hletter))
    rw [isNamePart_of_isBlank (bound.isBlank c hc)] at hpart
    cases hpart
  have hkeyword : recogniser.Unread (lastFrom before bound.blanks) bound.keyword
      (' ' :: ':' :: bound.name ++ rest) := by
    refine unread_word bound.spells.isNamePart ?_ ?_
    · rintro c hc
      obtain rfl : ' ' = c := by simpa using hc
      rfl
    · rintro text htext
      obtain ⟨_, rfl⟩ := List.cons.inj htext
      rfl
  have hname : ∀ c, recogniser.Unread (some c) bound.name rest := fun c =>
    unread_word bound.isName.isNamePart hends hnoTail
  refine hblanks.append recogniser ?_
  refine Recogniser.Unread.append recogniser (by simpa using hkeyword) ?_
  refine recogniser.unread_cons (recogniser_read?_eq_none_of_not_letter rfl) ?_
  exact recogniser.unread_cons (recogniser_read?_eq_none_of_not_letter rfl) (hname ':')

theorem Compared.boundWritten_endsName (c : Compared) {rest : List Char}
    (hends : EndsName isFoldedLetter rest) :
    EndsName isFoldedLetter (c.boundWritten ++ rest) := by
  cases hbound : c.bound? with
  | none => simpa [Compared.boundWritten, hbound] using hends
  | some bound =>
    obtain ⟨b, bs, hblanks⟩ := List.exists_cons_of_ne_nil bound.blanks_ne_nil
    rintro d hd
    obtain rfl : b = d := by
      simpa [Compared.boundWritten, hbound, Bound.written, hblanks] using hd
    exact isNamePart_of_isBlank (bound.isBlank b (by simp [hblanks]))

/-- No colon stands in front of the digits of a constant. -/
theorem Constant.colon_not_mem (c : Constant) :
    ':' ∉ c.column ++ ' ' :: c.token ++ ' ' :: c.sign := by
  have hcolumn : ':' ∉ c.column := fun hmem =>
    not_isPathChar_colon (c.isPath.isPathChar ':' hmem)
  have htoken : ':' ∉ c.token := (Operator.spells_of_sameIgnoringCase c.sameOperator).colon_not_mem
  have hsign : ':' ∉ c.sign := by
    obtain hsign | hsign := c.isSign <;> simp [hsign]
  simp [hcolumn, htoken, hsign]

namespace Condition

/-- No comparison begins where a condition begins: the column comes first. -/
theorem read?_eq_none (condition : Condition) {rest : List Char}
    (hends : EndsName isFoldedLetter rest) :
    Comparison.read? (condition.written ++ rest) = none := by
  cases condition with
  | compared c =>
    have hbehind := c.boundWritten_endsName hends
    have hread : (Comparison.read? (c.comparison.written ++ (c.boundWritten ++ rest))).isSome :=
      Option.isSome_iff_exists.2 ⟨c.comparison, Comparison.read?_eq_some_iff.2 ⟨_, rfl,
        ⟨c.blanksBefore, ⟨_, Operator.spells_of_sameIgnoringCase c.sameOperator⟩, c.blanksAfter,
          c.isName⟩, hbehind⟩⟩
    have htext : (compared c).written ++ rest =
        c.column ++ (c.comparison.written ++ (c.boundWritten ++ rest)) := by simp [written]
    rw [htext]
    by_contra hsome
    have hnone := Comparison.read?_eq_none_of_path c.isPath.ne_nil c.isPath.isPathChar
      (Option.isSome_iff_ne_none.2 hsome)
    simp [hnone] at hread
  | constant c =>
    obtain ⟨d, ds, hdigits⟩ := List.exists_cons_of_ne_nil c.digits_ne_nil
    have htext : (constant c).written ++ rest =
        (c.column ++ ' ' :: c.token ++ ' ' :: c.sign) ++ d :: (ds ++ rest) := by
      simp [written, hdigits]
    exact Comparison.read?_eq_none_of_digit htext c.colon_not_mem (c.isDigit d (by simp [hdigits]))

end Condition

/-- A condition with its connector does not make a connector in front of it a clause. -/
theorem Joined.noTail (joined : Joined) {rest : List Char} (hends : EndsName isFoldedLetter rest) :
    NoTail (' ' :: (joined.written ++ rest)) := by
  rintro text htext
  obtain ⟨_, rfl⟩ := List.cons.inj htext
  rw [Option.eq_none_iff_forall_ne_some]
  rintro ⟨path, comparison⟩ hlongest
  have hpath := isPathFrom_of_longestPath? hlongest
  obtain ⟨behind, hbehind, hread⟩ := exists_append_of_longestPath? hlongest
  have hwritten : joined.keyword ++ ' ' :: (joined.condition.written ++ rest) = path ++ behind := by
    rw [← hbehind]
    simp [written]
  have hspace : ' ' ∉ path := fun hmem =>
    absurd (hpath.isPathChar ' ' hmem).not_isBlank (by decide)
  obtain ⟨tail, hkeyword, rfl⟩ := exists_append_of_space hspace hwritten.symm
  rw [Comparison.read?_eq_none_of_keyword joined.spells hkeyword
    (joined.condition.read?_eq_none hends)] at hread
  cases hread

/-- No connector ends where the operator of a constant ends. -/
private theorem not_ends_with_connector {init token front word : List Char} {operator : Operator}
    {connector : Connector} (htoken : Operator.Spells token operator)
    (hword : Spells word connector) (hsplit : init ++ ' ' :: token = front ++ word) : False := by
  have hsplit' : (init ++ [' ']) ++ token = front ++ word := by simpa using hsplit
  obtain ⟨gap, _, rfl⟩ | ⟨gap, hinit, rfl⟩ := List.append_eq_append_iff.1 hsplit'
  · refine not_isSuffix_letters connector operator ⟨gap.map foldedCapital, ?_⟩
    rw [← hword, ← htoken, List.map_append]
  · obtain rfl | ⟨gap, c, rfl⟩ := gap.eq_nil_or_concat'
    · refine not_isSuffix_letters connector operator ⟨[], ?_⟩
      rw [← hword, ← htoken]
      rfl
    · rw [← List.append_assoc] at hinit
      obtain ⟨_, hlast⟩ := List.append_inj' hinit rfl
      obtain rfl := (List.cons.inj hlast).1
      exact hword.not_mem_of_not_letter (c := ' ') rfl (by simp)

/-- A comparison with a constant is no clause, and no clause begins within it. -/
theorem Constant.unread (c : Constant) {keyword : List Char} {connector : Connector}
    (hspells : Spells keyword connector) (before : Option Char) (rest : List Char) :
    recogniser.Unread before (keyword ++ ' ' :: (Condition.constant c).written) rest := by
  have htext : keyword ++ ' ' :: (Condition.constant c).written =
      (keyword ++ ' ' :: c.column ++ ' ' :: c.token) ++ (' ' :: (c.sign ++ c.digits)) := by
    simp [Condition.written]
  obtain ⟨d, ds, hdigits⟩ := List.exists_cons_of_ne_nil c.digits_ne_nil
  have hcolon : ':' ∉ c.column ++ ' ' :: c.token ++ ' ' :: c.sign := c.colon_not_mem
  have hkeyword : ':' ∉ keyword := hspells.not_mem_of_not_letter rfl
  rw [htext]
  refine Recogniser.Unread.append recogniser ?_ (unread_of_not_letter ?_)
  · have hbehind : ' ' :: (c.sign ++ c.digits) ++ rest = ' ' :: (c.sign ++ d :: (ds ++ rest)) := by
      simp [hdigits]
    rw [hbehind]
    refine unread_of_digit ?_ ?_ ?_ (c.isDigit d (by simp [hdigits]))
    · simp only [List.mem_append, List.mem_cons, not_or] at hcolon ⊢
      exact ⟨⟨hkeyword, by decide, hcolon.1.1⟩, hcolon.1.2⟩
    · intro init word other hbody hword
      exact not_ends_with_connector (Operator.spells_of_sameIgnoringCase c.sameOperator) hword hbody
    · simp only [List.mem_append, List.mem_cons, not_or] at hcolon
      exact hcolon.2.2
  · intro e he
    obtain rfl | he := List.mem_cons.1 he
    · rfl
    obtain he | he := List.mem_append.1 he
    · obtain hsign | hsign := c.isSign
      · simp [hsign] at he
      · obtain rfl : e = '-' := by simpa [hsign] using he
        rfl
    · by_contra hletter
      have hfolded := isFoldedLetter_of_isAlpha (eq_true_of_ne_false hletter)
      rw [isFoldedLetter_of_isDigit (c.isDigit e he)] at hfolded
      cases hfolded

/-- A comparison as a clause is read there. -/
def Compared.reading (c : Compared) (connector : Connector) (keyword : List Char) :
    Reading :=
  ⟨connector, keyword, c.column, c.comparison⟩

theorem Compared.wellFormed_reading (c : Compared) {connector : Connector} {keyword : List Char}
    (hspells : Spells keyword connector) : (c.reading connector keyword).WellFormed :=
  ⟨hspells, c.isPath, c.blanksBefore, ⟨_, Operator.spells_of_sameIgnoringCase c.sameOperator⟩,
    c.blanksAfter, c.isName⟩

theorem Joined.written_of_compared (joined : Joined) {c : Compared}
    (hcompared : joined.condition = .compared c) :
    joined.written =
      (c.reading joined.connector joined.keyword).written ++ c.boundWritten := by
  rw [Joined.written, hcompared]
  simp [Condition.written, Compared.reading, Reading.written]

/-- A clause that stands behind `front`. -/
def Compared.clause (c : Compared) (connector : Connector) (keyword front : List Char) : Clause where
  span := .behind front (c.reading connector keyword).written
  connector
  column := String.ofList c.column
  operator := c.operator
  placeholder := c.placeholder

/-- The clauses among conditions, of which the first one stands behind `front`. -/
def Joined.clause? (front : List Char) (joined : Joined) : Option Clause :=
  match joined.condition with
  | .compared c => some (c.clause joined.connector joined.keyword front)
  | .constant _ => none

def Joined.clausesBehind : List Char → List Joined → List Clause
  | _, [] => []
  | front, joined :: rest =>
    (joined.clause? (front ++ [' '])).toList ++ clausesBehind (front ++ ' ' :: joined.written) rest

/-- The clauses that a scan finds behind `front`. -/
private def scanned (front text : List Char) : List Clause :=
  (recogniser.scanFrom (byteLen front) (lastFrom none front) text).filterMap ofMatch?

private theorem scanned_of_unread {front text rest : List Char}
    (hunread : recogniser.Unread (lastFrom none front) text rest) :
    scanned front (text ++ rest) = scanned (front ++ text) rest := by
  rw [scanned, recogniser.scanFrom_append_of_unread hunread, scanned, byteLen_append,
    lastFrom_append]

/-- A condition is scanned as the clause that it is, or as nothing. -/
private theorem scanned_joined (joined : Joined) {front rest : List Char}
    (hfree : isWordBeside (lastFrom none front) = false) (hends : EndsName isFoldedLetter rest)
    (hnoTail : NoTail rest) :
    scanned front (joined.written ++ rest) =
      (joined.clause? front).toList ++ scanned (front ++ joined.written) rest := by
  obtain ⟨connector, keyword, condition, hspells⟩ := joined
  cases condition with
  | constant c => exact scanned_of_unread (c.unread hspells _ _)
  | compared c =>
    have hwritten : Joined.written ⟨connector, keyword, .compared c, hspells⟩ =
        (c.reading connector keyword).written ++ c.boundWritten := Joined.written_of_compared _ rfl
    have hread : recogniser.read? (lastFrom none front)
        ((c.reading connector keyword).written ++ (c.boundWritten ++ rest)) =
          some ((c.reading connector keyword).written, c.reading connector keyword) :=
      recogniser_read?_eq_some_iff.2 ⟨hfree, rfl, _, rfl, c.wellFormed_reading hspells,
        c.boundWritten_endsName hends⟩
    have hbound : recogniser.Unread (lastFrom none (front ++ (c.reading connector keyword).written))
        c.boundWritten rest := by
      cases hbound : c.bound? with
      | none => simpa [Compared.boundWritten, hbound] using recogniser.unread_nil _ rest
      | some bound => simpa [Compared.boundWritten, hbound] using bound.unread_written hends hnoTail
    have hclause : ofMatch? ⟨⟨byteLen front,
        byteLen front + byteLen (c.reading connector keyword).written⟩, c.reading connector keyword⟩ =
          some (c.clause connector keyword front) := by
      simp only [ofMatch?, Compared.reading,
        Operator.ofToken?_of_sameIgnoringCase c.sameOperator, Option.map_some]
      rfl
    rw [hwritten, List.append_assoc, scanned, recogniser.scanFrom_of_some hread,
      List.filterMap_cons, hclause, ← List.append_assoc, ← scanned_of_unread hbound]
    simp [Joined.clause?, scanned, lastFrom_append]

/-- Behind a condition the next one stands, or what follows the filter. -/
theorem writtenAll_stops (others : List Joined) {after : List Char}
    (hcolon : ':' ∉ after) (hends : EndsName isFoldedLetter after) :
    EndsName isFoldedLetter (Joined.writtenAll others ++ after) ∧
      NoTail (Joined.writtenAll others ++ after) := by
  induction others with
  | nil => exact ⟨hends, noTail_of_noColon hcolon⟩
  | cons joined rest ih =>
    have htext : Joined.writtenAll (joined :: rest) ++ after =
        ' ' :: (joined.written ++ (Joined.writtenAll rest ++ after)) := by
      simp [Joined.writtenAll]
    rw [htext]
    refine ⟨?_, joined.noTail ih.1⟩
    rintro c hc
    obtain rfl : ' ' = c := by simpa using hc
    rfl

private theorem scanned_others (others : List Joined) {front after : List Char}
    (hcolon : ':' ∉ after) (hends : EndsName isFoldedLetter after) :
    scanned front (Joined.writtenAll others ++ after) = Joined.clausesBehind front others := by
  induction others generalizing front with
  | nil =>
    have hnone : scanned front (after ++ []) = scanned (front ++ after) [] :=
      scanned_of_unread (unread_of_noColon hcolon)
    rw [List.append_nil] at hnone
    rw [Joined.clausesBehind, Joined.writtenAll, List.flatMap_nil, List.nil_append, hnone]
    rfl
  | cons joined rest ih =>
    obtain ⟨hstops, hnoTail⟩ := writtenAll_stops rest hcolon hends
    have htext : Joined.writtenAll (joined :: rest) ++ after =
        [' '] ++ (joined.written ++ (Joined.writtenAll rest ++ after)) := by
      simp [Joined.writtenAll]
    have hspace : recogniser.Unread (lastFrom none front) [' ']
        (joined.written ++ (Joined.writtenAll rest ++ after)) :=
      unread_of_not_letter fun c hc => by
        obtain rfl := List.mem_singleton.1 hc
        rfl
    have hfree : isWordBeside (lastFrom none (front ++ [' '])) = false := by
      rw [lastFrom_concat]
      exact isWordChar_of_isBlank (c := ' ') rfl
    rw [htext, scanned_of_unread hspace, scanned_joined joined hfree hstops hnoTail, ih]
    simp [Joined.clausesBehind]

/-- A word that begins in front of the filter ends there. -/
theorem exists_of_append_eq_before {filter : Filter} {front word rest text : List Char}
    (hword : ∀ c ∈ word, isWordChar c) (htext : filter.before ++ text = front ++ (word ++ rest))
    (hbefore : byteLen front < byteLen filter.before) :
    ∃ gap, filter.before = front ++ word ++ gap ∧ rest = gap ++ text := by
  obtain ⟨begun, heq, hbegun⟩ := exists_append_of_byteLen_le htext.symm (Nat.le_of_lt hbefore)
  obtain ⟨gap, rfl, hgap⟩ | ⟨gap, rfl, _⟩ := List.append_eq_append_iff.1 hbegun
  · exact ⟨gap, by rw [heq, List.append_assoc], hgap⟩
  · -- The word would go on over the blank in front of the filter.
    exfalso
    obtain rfl | ⟨init, c, rfl⟩ := begun.eq_nil_or_concat'
    · simp [heq] at hbefore
    · have hblank := filter.endsBlank (front ++ init) c (by rw [heq, List.append_assoc])
      have hc := hword c (by simp)
      rw [isWordChar_of_isBlank hblank] at hc
      cases hc

theorem not_isWordBeside_before (filter : Filter) :
    isWordBeside (lastFrom none filter.before) = false := by
  obtain hnil | ⟨init, c, hbefore⟩ := filter.before.eq_nil_or_concat'
  · rw [hnil]
    rfl
  · rw [hbefore, lastFrom_concat]
    exact isWordChar_of_isBlank (filter.endsBlank init c hbefore)

/-- No connector that begins in front of the filter stands free. -/
theorem not_standsFree_before {filter : Filter} {front word rest text : List Char}
    {connector : Connector} (hspells : Spells word connector)
    (htext : filter.before ++ text = front ++ (word ++ rest))
    (hbefore : byteLen front < byteLen filter.before) : ¬ StandsFree front rest := by
  rintro ⟨hleft, hright⟩
  obtain ⟨gap, heq, rfl⟩ := exists_of_append_eq_before hspells.isWordChar htext hbefore
  refine filter.holdsNone front word gap connector heq hspells ⟨hleft, ?_⟩
  cases gap with
  | nil => rfl
  | cons c cs => exact hright

private theorem unread_before (filter : Filter) (text : List Char) :
    recogniser.Unread (lastFrom none []) filter.before text := by
  intro front c back hbefore
  rw [Option.eq_none_iff_forall_ne_some]
  rintro ⟨written, reading⟩ hread
  obtain ⟨hfree, rfl, after, hafter, hwell, _⟩ := recogniser_read?_eq_some_iff.1 hread
  have htext : filter.before ++ text = front ++ (reading.keyword ++
      (' ' :: reading.column ++ reading.comparison.written ++ after)) := by
    rw [hbefore, List.append_assoc, List.cons_append, hafter]
    simp [Reading.written]
  refine not_standsFree_before hwell.keyword htext ?_ ⟨hfree, isWordChar_of_isBlank (c := ' ') rfl⟩
  rw [hbefore, byteLen_append]
  have hpos := byteLen_pos (List.cons_ne_nil c back)
  omega

/-- The clauses of a filter from left to right. -/
def clauses (filter : Filter) : List Clause :=
  (filter.first.clause? filter.before).toList ++
    Joined.clausesBehind (filter.before ++ filter.first.written) filter.others

/-- The clauses of a flat filter are its comparisons with placeholders and nothing else. Names,
columns and constants may themselves read like keywords. None of them is taken for a clause, because
no comparison follows it. -/
theorem clauses_written (filter : Filter) :
    SqlTemplate.clauses filter.written = filter.clauses := by
  obtain ⟨hstops, hnoTail⟩ := writtenAll_stops filter.others filter.noColon filter.endsName
  have htext : filter.written = filter.before ++
      (filter.first.written ++ (Joined.writtenAll filter.others ++ filter.after)) := by
    simp [written]
  have hscanned : SqlTemplate.clauses filter.written = scanned [] filter.written := rfl
  rw [hscanned, htext, scanned_of_unread (filter.unread_before _), List.nil_append,
    scanned_joined filter.first filter.not_isWordBeside_before hstops hnoTail,
    scanned_others filter.others filter.noColon filter.endsName]
  rfl

end Filter

end SqlTemplate
