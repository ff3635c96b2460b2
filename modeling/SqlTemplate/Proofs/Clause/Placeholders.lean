import SqlTemplate.Bindings
import SqlTemplate.Proofs.Clause.Places
import SqlTemplate.Proofs.Placeholder.Places
import SqlTemplate.Pruning

namespace SqlTemplate

/-- In ASCII a name is one where case is disregarded, without a long s or a Kelvin sign. -/
theorem isName_isAlpha_iff {name : List Char} (hname : IsName isFoldedLetter name) :
    IsName Char.isAlpha name ↔ ∀ c ∈ name, c ≠ '\u017F' ∧ c ≠ '\u212A' := by
  constructor
  · intro hascii c hc
    have hpart := hascii.isNamePart c hc
    constructor
    · rintro rfl
      exact absurd hpart (by decide)
    · rintro rfl
      exact absurd hpart (by decide)
  · intro hplain
    have hletter : ∀ c ∈ name, isFoldedLetter c = c.isAlpha := by
      intro c hc
      obtain ⟨hlong, hkelvin⟩ := hplain c hc
      rw [isFoldedLetter, beq_eq_false_iff_ne.2 hlong, beq_eq_false_iff_ne.2 hkelvin,
        Bool.or_false, Bool.or_false]
    cases name with
    | nil => exact hname
    | cons c cs =>
      refine ⟨(hletter c List.mem_cons_self).symm.trans hname.1, fun d hd => ?_⟩
      have hpart := hname.2 d hd
      rwa [isNamePart, hletter d (List.mem_cons_of_mem c hd)] at hpart

namespace Clause

/-- The placeholder is the one that the clause compares with: both end in the same place and have
the same name. -/
def ComparesWith (clause : Clause) (p : Placeholder) : Prop :=
  p.span.stop = clause.span.stop ∧ p.name = clause.placeholder

instance (clause : Clause) (p : Placeholder) : Decidable (clause.ComparesWith p) :=
  inferInstanceAs (Decidable (_ ∧ _))

/-- The clause compares with a name that is spelled without a long s and without a Kelvin sign. A
clause is read without regard to case, down to the name at its end, so these two are letters there.
In the name of a placeholder they are none. -/
def NamedInAscii (clause : Clause) : Prop :=
  ∀ c ∈ clause.placeholder.toList, c ≠ '\u017F' ∧ c ≠ '\u212A'

instance (clause : Clause) : Decidable clause.NamedInAscii :=
  inferInstanceAs (Decidable (∀ c ∈ _, _))

/-- In front of the name that a clause ends in stands one colon. -/
theorem Reading.WellFormed.exists_colon {reading : Reading} (hwell : reading.WellFormed) :
    ∃ head, reading.written = head ++ ':' :: reading.comparison.placeholder ∧
      ∀ before, lastFrom before head ≠ some ':' := by
  obtain ⟨operator, hspells⟩ := hwell.comparison.operator
  refine ⟨reading.keyword ++ ' ' :: reading.column ++ reading.comparison.blanksBefore ++
    (reading.comparison.operator ++ reading.comparison.blanksAfter), ?_, fun before hcolon => ?_⟩
  · simp [Reading.written, Comparison.written]
  · obtain ⟨c, hc, hlast⟩ := lastFrom_mem
      (lastFrom before (reading.keyword ++ ' ' :: reading.column ++ reading.comparison.blanksBefore))
      (List.append_ne_nil_of_left_ne_nil hspells.ne_nil reading.comparison.blanksAfter)
    rw [lastFrom_append, hlast] at hcolon
    obtain rfl := Option.some.inj hcolon
    obtain hc | hc := List.mem_append.1 hc
    · exact hspells.colon_not_mem hc
    · exact absurd (hwell.comparison.blanksAfter ':' hc) (by decide)

/-- A clause ends in a colon and its name, which no name character follows. The colon does not end
a cast. -/
theorem exists_colon_of_mem_clauses {text : List Char} {clause : Clause}
    (hclause : clause ∈ clauses text) :
    ∃ front head name rest, text = front ++ (head ++ ':' :: name) ++ rest ∧
      clause.span = .behind front (head ++ ':' :: name) ∧
      clause.placeholder = String.ofList name ∧ lastFrom none (front ++ head) ≠ some ':' ∧
      IsName isFoldedLetter name ∧ EndsName isFoldedLetter rest := by
  obtain ⟨front, reading, rest, hat⟩ := exists_at_of_mem_clauses hclause
  obtain ⟨head, hwritten, hlast⟩ := hat.wellFormed.exists_colon
  obtain ⟨_, _, heq⟩ := hat.exists_operator
  refine ⟨front, head, reading.comparison.placeholder, rest, hwritten ▸ hat.text_eq,
    hwritten ▸ hat.span_eq, ?_, ?_, hat.wellFormed.comparison.placeholder, hat.ends⟩
  · rw [heq]
  · rw [lastFrom_append]
    exact hlast _

/-- A clause ends in a placeholder just if the name is one in ASCII. -/
theorem exists_comparesWith_iff {text : List Char} {clause : Clause}
    (hclause : clause ∈ clauses text) :
    (∃ p ∈ placeholders text, clause.ComparesWith p) ↔ clause.NamedInAscii := by
  obtain ⟨front, head, name, rest, rfl, hspan, hplaceholder, hlast, hname, hends⟩ :=
    exists_colon_of_mem_clauses hclause
  rw [NamedInAscii, hplaceholder, String.toList_ofList, ← isName_isAlpha_iff hname]
  constructor
  · rintro ⟨p, hp, _, hsame⟩
    obtain ⟨_, _, name', _, rfl, hname'⟩ := mem_placeholders_iff.1 hp
    obtain ⟨_, _, _, hascii, _⟩ := nameAt?_eq_some_iff.1 hname'
    rw [hplaceholder] at hsame
    obtain rfl : name' = name := String.ofList_injective hsame
    exact hascii
  · intro hascii
    have htext : front ++ (head ++ ':' :: name) ++ rest =
        (front ++ head) ++ ':' :: (name ++ rest) := by simp
    refine ⟨.at (byteLen (front ++ head)) name,
      mem_placeholders_iff.2 ⟨front ++ head, _, name, htext, rfl, ?_⟩, ?_, hplaceholder.symm⟩
    · exact nameAt?_eq_some_iff.2 ⟨hlast, rest, rfl, hascii, hends.ascii⟩
    · rw [hspan, Span.behind_stop, Placeholder.at, byteLen_append front, byteLen_append head,
        Nat.add_assoc]

/-- The placeholder that a clause compares with stands in the clause. -/
theorem start_le_of_comparesWith {text : List Char} {clause : Clause} {p : Placeholder}
    (hclause : clause ∈ clauses text) (hp : p ∈ placeholders text)
    (hcompares : clause.ComparesWith p) : clause.span.start ≤ p.span.start := by
  obtain ⟨front, head, name, rest, _, hspan, hplaceholder, _⟩ :=
    exists_colon_of_mem_clauses hclause
  obtain ⟨hsameStop, hsameName⟩ := hcompares
  obtain ⟨front', _, name', _, rfl, _⟩ := mem_placeholders_iff.1 hp
  rw [hplaceholder] at hsameName
  obtain rfl : name' = name := String.ofList_injective hsameName
  rw [hspan, Span.behind_stop, byteLen_append] at hsameStop
  rw [hspan, Span.behind_start]
  simp only [Placeholder.at] at hsameStop ⊢
  omega

end Clause

/-- Without placeholders no name has a value. -/
theorem Bindings.lacks_ofTemplate {text : List Char} (hnone : placeholders text = [])
    (name : String) : (ofTemplate text).lacks name = true := by
  rw [lacks, get?, ofTemplate, placeholderNames, hnone]
  rfl

theorem Pruned.removing_of_noClause {template : String} (hnone : clauses template.toList = [])
    (lacks : String → Bool) :
    (removing lacks template).sql = String.ofList (trim template.toList) ∧
      (removing lacks template).names = [] := by
  have hsteps : Pruning.steps lacks template.toList = [] := by
    rw [Pruning.steps, hnone]
    rfl
  rw [removing, hsteps]
  exact ⟨rfl, rfl⟩

/-- The first clause goes if it lacks a value. -/
theorem Pruned.names_removing_ne_nil {template : String} {clause : Clause} {rest : List Clause}
    (hclauses : clauses template.toList = clause :: rest) {lacks : String → Bool}
    (hlacks : lacks clause.placeholder = true) : (removing lacks template).names ≠ [] := by
  have hdecide : ∃ upper?,
      Pruning.Progress.start.decide lacks template.toList clause = .remove upper? := by
    have hbehind : ¬ clause.span.start < Pruning.Progress.start.removedTo := Nat.not_lt_zero _
    rw [Pruning.Progress.decide, if_neg hbehind, if_pos hlacks]
    exact ⟨_, rfl⟩
  obtain ⟨upper?, hdecide⟩ := hdecide
  simp only [removing, Pruning.steps, hclauses, Pruning.stepsFrom, hdecide, List.flatMap_cons]
  cases upper? <;> simp [Pruning.Step.prunedNames]

/-- A clause ends in a placeholder just if its name has no long s and no Kelvin sign in it. A
template without placeholders is left as it is, but for the blanks around it, just if it has no
clause. -/
theorem clauses_and_placeholders_agree_iff (template : String) :
    (∀ clause ∈ clauses template.toList,
        (∃ p ∈ placeholders template.toList, clause.ComparesWith p) ↔ clause.NamedInAscii) ∧
      (placeholders template.toList = [] →
        let pruned := prune false (Bindings.ofTemplate template.toList).lacks template
        pruned.sql = String.ofList (trim template.toList) ∧ pruned.names = [] ↔
          clauses template.toList = []) := by
  refine ⟨fun clause hclause => Clause.exists_comparesWith_iff hclause, fun hnone => ?_⟩
  intro pruned
  constructor
  · rintro ⟨_, hnames⟩
    cases hclauses : clauses template.toList with
    | nil => rfl
    | cons clause rest =>
      have hlacks := Bindings.lacks_ofTemplate hnone clause.placeholder
      exact absurd hnames (Pruned.names_removing_ne_nil hclauses hlacks)
  · intro hclauses
    exact Pruned.removing_of_noClause hclauses _

/-- A clause whose name is a long s is read where there is no placeholder. -/
theorem clauses_and_placeholders_agree_iff_longS :
    let template := "SELECT * FROM t WHERE a = :\u017F"
    let clause : Clause := ⟨⟨16, 29⟩, .where_, "a", .equal, "\u017F"⟩
    let pruned := prune false (Bindings.ofTemplate template.toList).lacks template
    (clause ∈ clauses template.toList ∧
      ((∃ p ∈ placeholders template.toList, clause.ComparesWith p) ↔ clause.NamedInAscii)) ∧
    placeholders template.toList = [] ∧
      (pruned.sql = String.ofList (trim template.toList) ∧ pruned.names = [] ↔
        clauses template.toList = []) := by
  intro template clause pruned
  have hclause : clause ∈ clauses template.toList := by decide +kernel
  have hnone : placeholders template.toList = [] := by decide +kernel
  obtain ⟨hends, hpruned⟩ := clauses_and_placeholders_agree_iff template
  exact ⟨⟨hclause, hends clause hclause⟩, hnone, hpruned hnone⟩

/-- A clause without a placeholder is removed with its filter. -/
theorem prune_removes_longS :
    let template := "SELECT * FROM t WHERE a = :\u017F"
    let pruned := prune false (Bindings.ofTemplate template.toList).lacks template
    placeholders template.toList = [] ∧
      (∃ clause ∈ clauses template.toList,
        ¬ ∃ p ∈ placeholders template.toList, clause.ComparesWith p) ∧
      pruned.sql = "SELECT * FROM t" ∧ pruned.names = ["\u017F"] := by
  decide +kernel

end SqlTemplate
