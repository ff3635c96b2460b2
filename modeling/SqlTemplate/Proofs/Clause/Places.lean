import SqlTemplate.Clause
import SqlTemplate.Clause.UpperBound
import SqlTemplate.Proofs.Clause.Reading
import SqlTemplate.Proofs.Keyword.FreeStanding

namespace SqlTemplate

open Connector

/-- A stretch of a text that begins with a free-standing connector and ends with a whole name. -/
structure ConditionAt (text : List Char) (span : Span) (front keyword behind rest : List Char) :
    Prop where
  text_eq : text = front ++ (keyword ++ behind) ++ rest
  span_eq : span = .behind front (keyword ++ behind)
  keyword : ∃ connector, Spells keyword connector
  behind : ∃ init name, behind = ' ' :: (init ++ name) ∧ IsName isFoldedLetter name
  free : isWordBeside (lastFrom none front) = false
  ends : EndsName isFoldedLetter rest

namespace ConditionAt

variable {text front keyword behind rest : List Char} {span : Span}

theorem start_lt_stop (hat : ConditionAt text span front keyword behind rest) :
    span.start < span.stop := by
  obtain ⟨init, name, hbehind, _⟩ := hat.behind
  have hpos : 0 < byteLen (keyword ++ behind) := byteLen_pos (by simp [hbehind])
  simp only [hat.span_eq, Span.behind_start, Span.behind_stop]
  omega

/-- The last character of the stretch belongs to its name. -/
theorem exists_last (hat : ConditionAt text span front keyword behind rest)
    (before : Option Char) :
    ∃ c, lastFrom before (keyword ++ behind) = some c ∧ isNamePart isFoldedLetter c := by
  obtain ⟨init, name, hbehind, hname⟩ := hat.behind
  obtain ⟨c, hc, hlast⟩ := lastFrom_mem (lastFrom before (keyword ++ ' ' :: init)) hname.ne_nil
  refine ⟨c, ?_, hname.isNamePart c hc⟩
  rw [← hlast, ← lastFrom_append, hbehind]
  simp

end ConditionAt

namespace Clause

/-- A clause at its place, as it is written there: it stands free on its left, begins with its
connector and ends where the name of its placeholder does. -/
structure At (text : List Char) (clause : Clause) (front : List Char) (reading : Reading)
    (rest : List Char) : Prop where
  text_eq : text = front ++ reading.written ++ rest
  meaning : ofMatch? ⟨.behind front reading.written, reading⟩ = some clause
  wellFormed : reading.WellFormed
  free : isWordBeside (lastFrom none front) = false
  ends : EndsName isFoldedLetter rest

/-- The span of the connector that a clause begins with. -/
def connectorSpan (clause : Clause) : Span :=
  ⟨clause.span.start, clause.span.start + byteLen clause.connector.letters⟩

namespace At

variable {text front rest : List Char} {clause : Clause} {reading : Reading}

theorem exists_operator (hat : At text clause front reading rest) :
    ∃ operator, Operator.ofToken? reading.comparison.operator = some operator ∧
      clause = ⟨.behind front reading.written, reading.connector, String.ofList reading.column,
        operator, String.ofList reading.comparison.placeholder⟩ := by
  obtain ⟨operator, hoperator, hclause⟩ := Option.map_eq_some_iff.1 hat.meaning
  exact ⟨operator, hoperator, hclause.symm⟩

theorem span_eq (hat : At text clause front reading rest) :
    clause.span = .behind front reading.written := by
  obtain ⟨_, _, rfl⟩ := hat.exists_operator
  rfl

theorem connector_eq (hat : At text clause front reading rest) :
    clause.connector = reading.connector := by
  obtain ⟨_, _, rfl⟩ := hat.exists_operator
  rfl

theorem conditionAt (hat : At text clause front reading rest) :
    ConditionAt text clause.span front reading.keyword
      (' ' :: reading.column ++ reading.comparison.written) rest := by
  have hwritten : reading.written =
      reading.keyword ++ (' ' :: reading.column ++ reading.comparison.written) := by
    simp [Reading.written]
  refine ⟨hwritten ▸ hat.text_eq, hwritten ▸ hat.span_eq, ⟨_, hat.wellFormed.keyword⟩,
    ⟨reading.column ++ reading.comparison.blanksBefore ++ reading.comparison.operator ++
      reading.comparison.blanksAfter ++ [':'], reading.comparison.placeholder, ?_,
      hat.wellFormed.comparison.placeholder⟩, hat.free, hat.ends⟩
  simp [Comparison.written]

theorem connectorSpan_eq (hat : At text clause front reading rest) :
    clause.connectorSpan = .behind front reading.keyword := by
  rw [connectorSpan, hat.span_eq, hat.connector_eq, ← hat.wellFormed.keyword.byteLen_eq]
  rfl

/-- An `AND` or `OR` that introduces a clause stands free. -/
theorem joiningAt (hat : At text clause front reading rest) (hjoins : clause.connector ≠ .where_) :
    JoiningAt text clause.connectorSpan front reading.keyword
      (' ' :: reading.column ++ reading.comparison.written ++ rest) := by
  refine ⟨?_, hat.connectorSpan_eq, ⟨reading.connector, ?_, hat.wellFormed.keyword⟩, hat.free, ?_⟩
  · rw [hat.text_eq]
    simp [Reading.written]
  · rw [← hat.connector_eq]
    exact hjoins
  · exact isWordChar_of_isBlank (c := ' ') rfl

end At

/-- What a scan finds stands free on its left, is well formed and has the whole of its name. -/
theorem exists_of_mem_scan {text : List Char} {found : Match Reading}
    (hfound : found ∈ recogniser.scan text) :
    ∃ front rest, text = front ++ found.value.written ++ rest ∧
      found.span = .behind front found.value.written ∧ found.value.WellFormed ∧
      isWordBeside (lastFrom none front) = false ∧ EndsName isFoldedLetter rest := by
  rw [Recogniser.scan_eq_scanFrom] at hfound
  obtain ⟨front, written, rest, htext, hspan, hread⟩ := Recogniser.exists_of_mem_scanFrom _ hfound
  obtain ⟨hfree, rfl, rest', happend, hwell, hends⟩ := recogniser_read?_eq_some_iff.1 hread
  obtain rfl := List.append_cancel_left happend
  rw [Nat.zero_add] at hspan
  exact ⟨front, rest, htext, hspan, hwell, hfree, hends⟩

theorem exists_at_of_mem_clauses {text : List Char} {clause : Clause}
    (hmem : clause ∈ clauses text) : ∃ front reading rest, At text clause front reading rest := by
  obtain ⟨found, hfound, hclause⟩ := List.mem_filterMap.1 hmem
  obtain ⟨front, rest, htext, hspan, hwell, hfree, hends⟩ := exists_of_mem_scan hfound
  refine ⟨front, found.value, rest, htext, ?_, hwell, hfree, hends⟩
  rw [← hspan]
  exact hclause

/-- Clauses follow one another without overlap. -/
theorem pairwise_clauses (text : List Char) :
    (clauses text).Pairwise fun c d => c.span.stop ≤ d.span.start := by
  refine List.Pairwise.filterMap _ ?_ (recogniser.pairwise_scanFrom 0 none text)
  intro found found' hbefore clause hclause clause' hclause'
  obtain ⟨_, _, rfl⟩ := Option.map_eq_some_iff.1 hclause
  obtain ⟨_, _, rfl⟩ := Option.map_eq_some_iff.1 hclause'
  exact hbefore

end Clause

namespace UpperBound

/-- An upper bound at its place, behind blanks. -/
structure At (text : List Char) (upper : UpperBound) (front blanks keyword name rest : List Char) :
    Prop where
  text_eq : text = front ++ blanks ++ (keyword ++ ' ' :: ':' :: name) ++ rest
  span_eq : upper.span = .behind (front ++ blanks) (keyword ++ ' ' :: ':' :: name)
  placeholder_eq : upper.placeholder = String.ofList name
  blanks : ∀ c ∈ blanks, isBlank c
  keyword : Spells keyword upper.connector
  name : IsName isFoldedLetter name
  ends : EndsName isFoldedLetter rest

theorem upperBoundAt?_eq_some_iff {text : List Char} {offset : Nat} {upper : UpperBound} :
    upperBoundAt? text offset = some upper ↔
      ∃ front blanks keyword name rest, byteLen front = offset ∧
        At text upper front blanks keyword name rest := by
  constructor
  · intro hupper
    obtain ⟨⟨front, behind⟩, hsplit, hread⟩ := Option.bind_eq_some_iff.1 hupper
    obtain ⟨rfl, rfl⟩ := splitAtByte?_eq_some_iff.1 hsplit
    simp only [read?] at hread
    split at hread
    · next connector keyword rest htake =>
      obtain ⟨⟨name, after⟩, hname, rfl⟩ := Option.map_eq_some_iff.1 hread
      obtain ⟨rfl, hisName, hends⟩ := takeName?_eq_some_iff.1 hname
      obtain ⟨hdrop, hspells⟩ := Connector.take?_eq_some_iff.1 htake
      refine ⟨front, behind.takeWhile isBlank, keyword, name, after, rfl, ?_,
        ?_, rfl, fun c hc => List.mem_takeWhile_imp hc, hspells, hisName, hends⟩
      · calc front ++ behind
          _ = front ++ (behind.takeWhile isBlank ++ behind.dropWhile isBlank) := by
            rw [List.takeWhile_append_dropWhile]
          _ = _ := by simp [hdrop]
      · simp [Span.behind]
    · simp at hread
  · rintro ⟨front, blanks, keyword, name, rest, rfl, hat⟩
    obtain ⟨rfl, hspan, hplaceholder, hblanks, hspells, hname, hends⟩ := hat
    have hhead : ∀ c ∈ (keyword ++ (' ' :: ':' :: name ++ rest)).head?, isBlank c = false := by
      intro c hc
      obtain ⟨d, ds, rfl⟩ := List.exists_cons_of_ne_nil hspells.ne_nil
      obtain rfl : d = c := by simpa using hc
      exact hspells.not_isBlank d List.mem_cons_self
    obtain ⟨htake, hdrop⟩ :=
      takeWhile_append_of_stops (keyword ++ (' ' :: ':' :: name ++ rest)) hblanks hhead
    have htext : front ++ blanks ++ (keyword ++ ' ' :: ':' :: name) ++ rest =
        front ++ (blanks ++ (keyword ++ (' ' :: ':' :: name ++ rest))) := by simp
    refine Option.bind_eq_some_iff.2
      ⟨_, splitAtByte?_eq_some_iff.2 ⟨htext, rfl⟩, ?_⟩
    change read? (byteLen front) _ = some upper
    rw [read?, htake, hdrop, Connector.take?_eq_some_iff.2 ⟨rfl, hspells⟩]
    simp only [List.cons_append, takeName?_eq_some_iff.2 ⟨rfl, hname, hends⟩, Option.map_some,
      Option.some.injEq]
    obtain ⟨span, connector, placeholder⟩ := upper
    simp only at hspan hplaceholder
    simp [hspan, hplaceholder, Span.behind]

namespace At

variable {text front blanks keyword name rest : List Char} {upper : UpperBound}

/-- Behind a whole name an upper bound stands free. -/
theorem blanks_ne_nil (hat : At text upper front blanks keyword name rest)
    (hends : EndsName isFoldedLetter (blanks ++ (keyword ++ ' ' :: ':' :: name) ++ rest)) :
    blanks ≠ [] := by
  rintro rfl
  obtain ⟨c, cs, rfl⟩ := List.exists_cons_of_ne_nil hat.keyword.ne_nil
  have hpart := hat.keyword.isNamePart c List.mem_cons_self
  rw [hends c rfl] at hpart
  cases hpart

theorem conditionAt (hat : At text upper front blanks keyword name rest) (hne : blanks ≠ []) :
    ConditionAt text upper.span (front ++ blanks) keyword (' ' :: ':' :: name) rest := by
  refine ⟨hat.text_eq, hat.span_eq, ⟨_, hat.keyword⟩, ⟨[':'], name, rfl, hat.name⟩, ?_, hat.ends⟩
  obtain ⟨c, hc, hlast⟩ := lastFrom_mem (lastFrom none front) hne
  rw [lastFrom_append, hlast]
  exact isWordChar_of_isBlank (hat.blanks c hc)

end At

/-- The upper bound behind a clause stands apart from it, behind at least one blank. -/
theorem exists_at_of_mem_clauses {text : List Char} {clause : Clause} {upper : UpperBound}
    (hclause : clause ∈ clauses text) (hupper : upperBoundAt? text clause.span.stop = some upper) :
    ∃ front blanks keyword name rest, byteLen front = clause.span.stop ∧ blanks ≠ [] ∧
      At text upper front blanks keyword name rest := by
  obtain ⟨front, reading, rest, hat⟩ := Clause.exists_at_of_mem_clauses hclause
  obtain ⟨front', blanks, keyword, name, rest', hlen, hupperAt⟩ :=
    upperBoundAt?_eq_some_iff.1 hupper
  have htext : front' ++ (blanks ++ (keyword ++ ' ' :: ':' :: name) ++ rest') =
      (front ++ reading.written) ++ rest := by
    rw [← hat.text_eq, hupperAt.text_eq]
    simp only [List.append_assoc]
  have hstop : byteLen front' = byteLen (front ++ reading.written) := by
    rw [hlen, hat.span_eq, byteLen_append]
    rfl
  obtain ⟨rfl, rfl⟩ := append_inj_of_byteLen_eq htext hstop
  exact ⟨_, blanks, keyword, name, rest', hlen, hupperAt.blanks_ne_nil hat.ends, hupperAt⟩

/-- The upper bound behind a clause is a condition of its own. -/
theorem exists_conditionAt_of_mem_clauses {text : List Char} {clause : Clause} {upper : UpperBound}
    (hclause : clause ∈ clauses text) (hupper : upperBoundAt? text clause.span.stop = some upper) :
    clause.span.stop ≤ upper.span.start ∧
      ∃ front keyword behind rest, ConditionAt text upper.span front keyword behind rest := by
  obtain ⟨front, blanks, keyword, name, rest, hlen, hne, hat⟩ :=
    exists_at_of_mem_clauses hclause hupper
  refine ⟨?_, _, _, _, _, hat.conditionAt hne⟩
  rw [hat.span_eq, Span.behind_start, ← hlen, byteLen_append]
  omega

end UpperBound

end SqlTemplate
