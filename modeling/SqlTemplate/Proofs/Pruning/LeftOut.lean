import SqlTemplate.Proofs.Pruning.ConnectorNames
import SqlTemplate.Proofs.Pruning.Record

namespace SqlTemplate

/-- The byte at the position is one of the span's. -/
def Span.Contains (span : Span) (position : Nat) : Prop :=
  span.start ≤ position ∧ position < span.stop

instance (span : Span) (position : Nat) : Decidable (span.Contains position) :=
  inferInstanceAs (Decidable (_ ∧ _))

/-- The byte belongs to the clause, or to the upper bound of its `BETWEEN`. -/
def Clause.Owns (text : List Char) (clause : Clause) (position : Nat) : Prop :=
  clause.span.Contains position ∨
    clause.operator = .between ∧
      ∃ upper ∈ upperBoundAt? text clause.span.stop, upper.span.Contains position

instance (text : List Char) (clause : Clause) (position : Nat) :
    Decidable (clause.Owns text position) :=
  inferInstanceAs (Decidable (_ ∨ _ ∧ _))

namespace Pruning

variable {lacks : String → Bool} {text : List Char} {step : Step} {position : Nat}

/-- Pruning leaves the byte out with a stretch that it removes. -/
def LeavesOut (lacks : String → Bool) (text : List Char) (position : Nat) : Prop :=
  ∃ e ∈ carriedOut lacks text, e.isPromotion = false ∧ e.span.Contains position

instance (lacks : String → Bool) (text : List Char) (position : Nat) :
    Decidable (LeavesOut lacks text position) :=
  inferInstanceAs (Decidable (∃ e ∈ _, _))

/-- A removal is always carried out. -/
theorem removal_mem_carriedOut_iff {e : Edit} (hplain : e.isPromotion = false) :
    e ∈ carriedOut lacks text ↔ e ∈ editsOf (steps lacks text) := by
  rw [mem_carriedOut_iff]
  refine and_iff_left_of_imp fun _ f _ htaken => ?_
  rw [htaken.1] at hplain
  cases hplain

/-- With a clause goes the upper bound of its `BETWEEN`, if there is one. -/
theorem eq_upperBoundAt?_of_decide_remove {progress : Progress} {clause : Clause}
    {upper? : Option UpperBound} (hdecide : progress.decide lacks text clause = .remove upper?) :
    upper? = if clause.operator = .between then upperBoundAt? text clause.span.stop else none := by
  unfold Progress.decide at hdecide
  split at hdecide
  · cases hdecide
  · split at hdecide
    · exact (Decision.remove.inj hdecide).symm
    · cases hdecide

/-- What a step removes is what its clause owns, if the clause is removed. -/
theorem exists_removal_iff (hstep : step ∈ steps lacks text) :
    (∃ e ∈ step.edits, e.isPromotion = false ∧ e.span.Contains position) ↔
      step.removes = true ∧ step.clause.Owns text position := by
  obtain ⟨done, later, hsteps⟩ := List.append_of_mem hstep
  obtain ⟨_, _, hdecision⟩ := exists_invariant_of_steps_eq hsteps
  cases hcase : step.decision with
  | swallowed => simp [Step.edits, Step.removes, hcase]
  | keep promoted? => cases promoted? <;> simp [Step.edits, Step.removes, hcase, Edit.isPromotion]
  | remove upper? =>
    have hupper := eq_upperBoundAt?_of_decide_remove (hdecision.symm.trans hcase)
    have hremoves : step.removes = true := by simp [Step.removes, hcase]
    rw [and_iff_right hremoves, Clause.Owns]
    by_cases hbetween : step.clause.operator = .between
    · rw [if_pos hbetween] at hupper
      subst hupper
      cases hfound : upperBoundAt? text step.clause.span.stop with
      | none =>
        rw [hfound] at hcase
        simp [Step.edits, hcase, Edit.isPromotion, Edit.span]
      | some upper =>
        rw [hfound] at hcase
        simp [Step.edits, hcase, hbetween, Edit.isPromotion, Edit.span]
    · rw [if_neg hbetween] at hupper
      subst hupper
      simp [Step.edits, hcase, hbetween, Edit.isPromotion, Edit.span]

/-- A byte is left out just if it belongs to a clause that is removed. -/
theorem leavesOut_iff_removes :
    LeavesOut lacks text position ↔
      ∃ step ∈ steps lacks text, step.removes = true ∧ step.clause.Owns text position := by
  constructor
  · rintro ⟨e, he, hplain, hcontains⟩
    obtain ⟨step, hstep, hedit⟩ := List.mem_flatMap.1 ((removal_mem_carriedOut_iff hplain).1 he)
    exact ⟨step, hstep, (exists_removal_iff hstep).1 ⟨e, hedit, hplain, hcontains⟩⟩
  · rintro ⟨step, hstep, howns⟩
    obtain ⟨e, hedit, hplain, hcontains⟩ := (exists_removal_iff hstep).2 howns
    have he : e ∈ editsOf (steps lacks text) := List.mem_flatMap.2 ⟨step, hstep, hedit⟩
    exact ⟨e, (removal_mem_carriedOut_iff hplain).2 he, hplain, hcontains⟩

/-- Where no connector stands behind a colon, the name of a clause decides about what the clause
owns. -/
theorem leavesOut_iff_lacks (hnone : ¬ Connector.BehindColon text) :
    LeavesOut lacks text position ↔
      ∃ clause ∈ clauses text, lacks clause.placeholder = true ∧ clause.Owns text position := by
  rw [leavesOut_iff_removes, ← map_clause_steps lacks text]
  constructor
  · rintro ⟨step, hstep, hremoves, howns⟩
    rw [(removes_eq_lacks hnone hstep).1] at hremoves
    exact ⟨step.clause, List.mem_map_of_mem hstep, hremoves, howns⟩
  · rintro ⟨clause, hclause, hlacks, howns⟩
    obtain ⟨step, hstep, rfl⟩ := List.mem_map.1 hclause
    rw [← (removes_eq_lacks hnone hstep).1] at hlacks
    exact ⟨step, hstep, hlacks, howns⟩

/-- What pruning makes of a template, character by character. -/
theorem sql_removing_eq_rewrite (lacks : String → Bool) (template : String) :
    (Pruned.removing lacks template).sql =
      String.ofList (trim (Edit.rewrite (carriedOut lacks template.toList) 0 template.toList)) := by
  obtain ⟨result, hlaid, hsql⟩ := exists_laid_removing lacks template
  have hrewrite : Edit.rewrite (carriedOut lacks template.toList) 0 template.toList = result :=
    hlaid.rewrite_eq
  rw [hsql, hrewrite]

end Pruning

/-- A parameter with a value takes a name from those that lack one, and adds none. -/
theorem Bindings.lacks_of_lacks_assign {bindings : Bindings} {p : Parameter}
    (hvalue : p.isPrunable = false) {name : String}
    (hlacks : (bindings.assign p).lacks name = true) : bindings.lacks name = true := by
  by_cases hsame : name = p.name
  · have hprunable : p.isPrunable = true := by
      rw [hsame, lacks, get?_assign_self] at hlacks
      exact hlacks
    rw [hvalue] at hprunable
    cases hprunable
  · rwa [lacks, get?_assign_of_ne bindings hsame] at hlacks

/-- Where no connector stands behind a colon, pruning leaves out what belongs to the clauses whose
names lack a value, each with the upper bound of its `BETWEEN`, and copies or promotes all else. So
what it leaves out for some bindings it leaves out for all that give no more names a value. -/
theorem prune_leavesOut_iff (template : String)
    (hnone : ¬ Connector.BehindColon template.toList) :
    let text := template.toList
    (∀ bindings : Bindings,
      (prune false bindings.lacks template).sql = String.ofList
          (trim (Edit.rewrite (Pruning.carriedOut bindings.lacks text) 0 text)) ∧
        ∀ position, Pruning.LeavesOut bindings.lacks text position ↔
          ∃ clause ∈ clauses text,
            bindings.lacks clause.placeholder = true ∧ clause.Owns text position) ∧
    ∀ fewer more : Bindings, (∀ name, more.lacks name = true → fewer.lacks name = true) →
      ∀ position, Pruning.LeavesOut more.lacks text position →
        Pruning.LeavesOut fewer.lacks text position := by
  intro text
  refine ⟨fun bindings => ⟨Pruning.sql_removing_eq_rewrite bindings.lacks template,
    fun position => Pruning.leavesOut_iff_lacks hnone⟩, ?_⟩
  intro fewer more hfewer position hleaves
  obtain ⟨clause, hclause, hlacks, howns⟩ := (Pruning.leavesOut_iff_lacks hnone).1 hleaves
  exact (Pruning.leavesOut_iff_lacks hnone).2
    ⟨clause, hclause, hfewer clause.placeholder hlacks, howns⟩

/-- The upper bound goes with its clause though it has a value, and stays when the clause does. -/
theorem prune_leavesOut_iff_between :
    let template := "SELECT * FROM t WHERE a BETWEEN :lo AND :hi AND b = :x"
    let text := template.toList
    let fewer := (Bindings.ofTemplate text).assign (.assigned "hi" (.int 9) false)
    let more := fewer.assign (.assigned "lo" (.int 1) false)
    ¬ Connector.BehindColon text ∧
      (Pruning.LeavesOut fewer.lacks text 40 ↔ ∃ clause ∈ clauses text,
        fewer.lacks clause.placeholder = true ∧ clause.Owns text 40) ∧
      (Pruning.LeavesOut fewer.lacks text 40 ∧ ¬ Pruning.LeavesOut more.lacks text 40) ∧
      (∀ name, more.lacks name = true → fewer.lacks name = true) ∧
      Pruning.LeavesOut more.lacks text 50 ∧ Pruning.LeavesOut fewer.lacks text 50 := by
  intro template text fewer more
  have hnone : ¬ Connector.BehindColon text := by decide +kernel
  have hfewer : ∀ name, more.lacks name = true → fewer.lacks name = true := fun _ hlacks =>
    Bindings.lacks_of_lacks_assign rfl hlacks
  have hbound : Pruning.LeavesOut fewer.lacks text 40 ∧ ¬ Pruning.LeavesOut more.lacks text 40 := by
    decide +kernel
  have hmore : Pruning.LeavesOut more.lacks text 50 := by decide +kernel
  obtain ⟨howned, hmonotone⟩ := prune_leavesOut_iff template hnone
  exact ⟨hnone, (howned fewer).2 40, hbound, hfewer, hmore, hmonotone fewer more hfewer 50 hmore⟩

end SqlTemplate
