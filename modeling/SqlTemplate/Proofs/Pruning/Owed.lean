import SqlTemplate.Proofs.Pruning.Promotion
import SqlTemplate.Proofs.Pruning.Record

namespace SqlTemplate

open Connector

namespace Pruning

section Owes

theorem owesWhere_iff (steps : List Step) :
    OwesWhere steps ↔ (progressAfter steps).owesWhere = true := by
  induction steps using List.reverseRecOn with
  | nil => exact iff_of_false not_owesWhere_nil Bool.false_ne_true
  | append_singleton steps step ih =>
    rw [owesWhere_concat_iff, progressAfter_concat, Invariant.owesWhere_after, ih]

instance (steps : List Step) : Decidable (OwesWhere steps) :=
  decidable_of_iff _ (owesWhere_iff steps).symm

/-- The number of clauses that are kept while a `WHERE` is owed: one with a `WHERE` was removed
between such a clause and the kept one before it, or the beginning of the text. -/
def owedCount (steps : List Step) : Nat :=
  (List.range steps.length).countP fun i =>
    steps[i]?.any Step.keeps && OwesWhere (steps.take i)

theorem owedCount_concat (steps : List Step) (step : Step) :
    owedCount (steps ++ [step]) =
      owedCount steps + if step.keeps = true ∧ OwesWhere steps then 1 else 0 := by
  have hearlier : ∀ i ∈ List.range steps.length,
      (((steps ++ [step])[i]?.any Step.keeps && OwesWhere ((steps ++ [step]).take i)) = true ↔
        (steps[i]?.any Step.keeps && OwesWhere (steps.take i)) = true) := by
    intro i hi
    have hlt := List.mem_range.1 hi
    rw [List.getElem?_append_left hlt, List.take_append_of_le_length (Nat.le_of_lt hlt)]
  rw [owedCount, List.length_append, List.length_singleton, List.range_succ, List.countP_append,
    List.countP_congr hearlier, List.countP_singleton]
  simp [owedCount]

end Owes

/-- No clause that begins with a `WHERE` is kept while one is owed. -/
def KeepsJoinedOnly (lacks : String → Bool) (text : List Char) : Prop :=
  ∀ done step later, steps lacks text = done ++ step :: later → step.keeps = true →
    (progressAfter done).owesWhere = true → step.clause.connector ≠ .where_

section Run

variable {lacks : String → Bool} {text : List Char} {done later : List Step} {step : Step}

/-- Nothing made so far touches the connector of a kept clause, if what was promoted so far begins
no later than the clauses that it was promoted for. -/
theorem connectorSpan_untouched (hsteps : steps lacks text = done ++ step :: later)
    (hkeeps : step.keeps = true) (hjoins : step.clause.connector ≠ .where_)
    (hearly : ∀ s ∈ done, ∀ span, s.decision = .keep (some span) →
      span.start ≤ s.clause.span.start) :
    ∀ e ∈ editsOf done, e.span.overlaps step.clause.connectorSpan = false := by
  intro e hmem
  by_contra hoverlaps
  obtain ⟨hstart, hstop⟩ := Span.overlaps_iff.1 (eq_true_of_ne_false hoverlaps)
  have hbegins : step.clause.connectorSpan.start = step.clause.span.start := rfl
  have hwithin := connectorSpan_stop_le (clause_mem_clauses hsteps)
  obtain ⟨s, hs, he⟩ := List.mem_flatMap.1 hmem
  obtain ⟨_, _, hremoved⟩ | ⟨span, hkeep, rfl⟩ := Step.mem_edits_iff.1 he
  · have hplain : e.isPromotion = false := by
      obtain rfl | ⟨_, _, rfl⟩ := hremoved <;> rfl
    have hall : e ∈ editsOf (steps lacks text) := by
      rw [hsteps, editsOf_append]
      exact List.mem_append_left _ hmem
    obtain ⟨_, hbefore⟩ | hafter := removal_apart hsteps hkeeps hall hplain <;> omega
  · -- Two connectors that overlap are the same, but this one is promoted for an earlier clause.
    obtain ⟨before, after, _, hsteps'⟩ := exists_steps_eq_of_mem hsteps hs
    obtain ⟨_, hfirst⟩ := (promoted_iff hsteps' hkeep span).1 rfl
    obtain ⟨hjoining, _, _⟩ := firstJoiningOutside?_eq_some_iff.1 hfirst
    have hown := connectorSpan_mem_joiningSpans (clause_mem_clauses hsteps) hjoins
    have hrow := pairwise_steps lacks text
    rw [hsteps] at hrow
    have hfollows := (List.pairwise_append.1 hrow).2.2 s hs step List.mem_cons_self
    obtain ⟨_, _, _, hat⟩ := Clause.exists_at_of_mem_clauses (clause_mem_clauses hsteps')
    have hclause := hat.conditionAt.start_lt_stop
    have hle := hearly s hs span hkeep
    simp only [Edit.span] at hstart hstop
    by_cases hsame : span = step.clause.connectorSpan
    · subst hsame
      omega
    · have happart := stop_le_start_of_mem_joiningSpans hjoining hown hsame
      omega

/-- A clause to which a `WHERE` is owed has a connector promoted, its own if none in front of it is
left. -/
theorem exists_promoted_of_early (hsteps : steps lacks text = done ++ step :: later)
    (hkeeps : step.keeps = true) (howes : OwesWhere done)
    (hjoins : step.clause.connector ≠ .where_)
    (hearly : ∀ s ∈ done, ∀ span, s.decision = .keep (some span) →
      span.start ≤ s.clause.span.start) :
    ∃ span, step.decision = .keep (some span) ∧ span.start ≤ step.clause.span.start ∧
      span.stop ≤ step.clause.span.stop := by
  have hown := connectorSpan_mem_joiningSpans (clause_mem_clauses hsteps) hjoins
  have hwithin := connectorSpan_stop_le (clause_mem_clauses hsteps)
  have hbegins : step.clause.connectorSpan.start = step.clause.span.start := rfl
  have huntaken : ¬ ∃ other ∈ (editsOf done).map Edit.span,
      other.overlaps step.clause.connectorSpan := by
    rintro ⟨other, hother, hoverlaps⟩
    obtain ⟨e, he, rfl⟩ := List.mem_map.1 hother
    rw [connectorSpan_untouched hsteps hkeeps hjoins hearly e he] at hoverlaps
    cases hoverlaps
  obtain ⟨promoted?, hkeep⟩ := exists_of_keeps hkeeps
  cases hfirst : firstJoiningOutside? ((editsOf done).map Edit.span) text with
  | none => exact absurd (firstJoiningOutside?_eq_none_iff.1 hfirst _ hown) huntaken
  | some span =>
    obtain rfl := (promoted_iff hsteps hkeep span).2 ⟨howes, hfirst⟩
    obtain ⟨hjoining, _, hearlier⟩ := firstJoiningOutside?_eq_some_iff.1 hfirst
    have hstart : span.start ≤ step.clause.connectorSpan.start := by
      by_contra hlater
      exact huntaken (hearlier _ hown (Nat.lt_of_not_le hlater))
    refine ⟨span, hkeep, by omega, ?_⟩
    by_cases hsame : span = step.clause.connectorSpan
    · rwa [hsame]
    · have happart := stop_le_start_of_mem_joiningSpans hjoining hown hsame
      have hspan := start_lt_stop_of_mem_joiningSpans hjoining
      have howner := start_lt_stop_of_mem_joiningSpans hown
      omega

/-- What is promoted for a clause begins no later than the clause, and ends no later. -/
theorem within_of_promoted (hjoined : KeepsJoinedOnly lacks text)
    (hsteps : steps lacks text = done ++ step :: later) {span : Span}
    (hdecision : step.decision = .keep (some span)) :
    span.start ≤ step.clause.span.start ∧ span.stop ≤ step.clause.span.stop := by
  induction hlength : done.length using Nat.strongRecOn generalizing done step later span with
  | _ length ih =>
    subst hlength
    have hkeeps : step.keeps = true := by simp [Step.keeps, hdecision]
    have howes : OwesWhere done := ((promoted_iff hsteps hdecision span).1 rfl).1
    have hjoins := hjoined done step later hsteps hkeeps ((owesWhere_iff done).1 howes)
    -- The promotions made so far were made for earlier clauses.
    have hearly : ∀ s ∈ done, ∀ span', s.decision = .keep (some span') →
        span'.start ≤ s.clause.span.start := by
      intro s hs span' hdecision'
      obtain ⟨before, after, hdone, hsteps'⟩ := exists_steps_eq_of_mem hsteps hs
      have hshorter : before.length < done.length := by
        rw [hdone, List.length_append, List.length_cons]
        omega
      exact (ih before.length hshorter hsteps' hdecision' rfl).1
    obtain ⟨span', hdecision', hwithin⟩ :=
      exists_promoted_of_early hsteps hkeeps howes hjoins hearly
    obtain rfl : span' = span := by
      rw [hdecision'] at hdecision
      exact Option.some.inj (Decision.keep.inj hdecision)
    exact hwithin

/-- Each clause that is kept while a `WHERE` is owed has a connector promoted that begins no later
than the clause. -/
theorem exists_promoted (hjoined : KeepsJoinedOnly lacks text)
    (hsteps : steps lacks text = done ++ step :: later) (hkeeps : step.keeps = true)
    (howes : OwesWhere done) :
    ∃ span, step.decision = .keep (some span) ∧ span.start ≤ step.clause.span.start := by
  have hjoins := hjoined done step later hsteps hkeeps ((owesWhere_iff done).1 howes)
  obtain ⟨span, hdecision, hstart, _⟩ :=
    exists_promoted_of_early hsteps hkeeps howes hjoins fun s hs span' hdecision' => by
      obtain ⟨_, _, _, hsteps'⟩ := exists_steps_eq_of_mem hsteps hs
      exact (within_of_promoted hjoined hsteps' hdecision').1
  exact ⟨span, hdecision, hstart⟩

/-- The edits of a run, around a promotion. -/
theorem editsOf_steps_of_promoted (hsteps : steps lacks text = done ++ step :: later) {span : Span}
    (hdecision : step.decision = .keep (some span)) :
    editsOf (steps lacks text) = editsOf done ++ .promote span :: editsOf later := by
  have hstep : step.edits = [.promote span] := by simp [Step.edits, hdecision]
  rw [hsteps, editsOf_append, ← List.singleton_append, editsOf_append, editsOf_singleton, hstep]
  rfl

/-- What is promoted for a clause keeps apart from all other edits. -/
theorem overlaps_promoted (hjoined : KeepsJoinedOnly lacks text)
    (hsteps : steps lacks text = done ++ step :: later) {span : Span}
    (hdecision : step.decision = .keep (some span)) :
    ∀ e ∈ editsOf done ++ editsOf later, e.span.overlaps span = false := by
  have hkeeps : step.keeps = true := by simp [Step.keeps, hdecision]
  have hedits := editsOf_steps_of_promoted hsteps hdecision
  obtain ⟨_, hstop⟩ := within_of_promoted hjoined hsteps hdecision
  obtain ⟨_, hfirst⟩ := (promoted_iff hsteps hdecision span).1 rfl
  obtain ⟨_, hfree, _⟩ := firstJoiningOutside?_eq_some_iff.1 hfirst
  have hdone : ∀ e ∈ editsOf done, e.span.overlaps span = false := fun e he =>
    hfree e.span (List.mem_map_of_mem he)
  intro e hmem
  obtain he | he := List.mem_append.1 hmem
  · exact hdone e he
  · obtain ⟨_, hinvariant⟩ := invariant_steps lacks text
    have hcompatible := hinvariant.compatible
    rw [hedits] at hcompatible
    have hboth : Edit.Compatible (.promote span) e :=
      (List.pairwise_cons.1 (List.pairwise_append.1 hcompatible).2.1).1 e he
    obtain hapart | ⟨_, hplain, _⟩ | htaken := hboth
    · rwa [Span.overlaps_comm] at hapart
    · -- A removal that is made later lies behind the clause.
      have hall : e ∈ editsOf (steps lacks text) := by
        rw [hedits]
        exact List.mem_append_right _ (List.mem_cons_of_mem _ he)
      obtain ⟨hbefore, _⟩ | hafter := removal_apart hsteps hkeeps hall hplain
      · exact hdone e hbefore
      · rw [← Bool.not_eq_true, Span.overlaps_iff]
        omega
    · cases htaken.2.1

/-- No connector that is promoted is removed. -/
theorem not_takenBy_of_joined (hjoined : KeepsJoinedOnly lacks text) :
    ∀ e ∈ editsOf (steps lacks text), ∀ f ∈ editsOf (steps lacks text), ¬ e.TakenBy f := by
  rintro e he f hf ⟨hpromotes, hplain, hstart, hstop⟩
  obtain ⟨step, hstep, hedit⟩ := List.mem_flatMap.1 he
  obtain ⟨_, _, hremoved⟩ | ⟨span, hdecision, rfl⟩ := Step.mem_edits_iff.1 hedit
  · obtain rfl | ⟨_, _, rfl⟩ := hremoved <;> cases hpromotes
  · obtain ⟨done, later, hsteps⟩ := List.append_of_mem hstep
    have hother : f ∈ editsOf done ++ editsOf later := by
      rw [editsOf_steps_of_promoted hsteps hdecision, List.mem_append, List.mem_cons] at hf
      obtain hf | rfl | hf := hf
      · exact List.mem_append_left _ hf
      · cases hplain
      · exact List.mem_append_right _ hf
    have happart := overlaps_promoted hjoined hsteps hdecision f hother
    obtain ⟨_, hinvariant⟩ := invariant_steps lacks text
    have hspan := (hinvariant.sited _ he).start_lt_stop
    change f.span.start ≤ span.start at hstart
    change span.stop ≤ f.span.stop at hstop
    change span.start < span.stop at hspan
    rw [← Bool.not_eq_true, Span.overlaps_iff] at happart
    omega

theorem carriedOut_eq_sort (hjoined : KeepsJoinedOnly lacks text) :
    carriedOut lacks text = Edit.sort (editsOf (steps lacks text)) := by
  obtain ⟨_, hinvariant⟩ := invariant_steps lacks text
  have hmem : ∀ e, e ∈ Edit.sort (editsOf (steps lacks text)) ↔ e ∈ editsOf (steps lacks text) :=
    fun e => (Edit.sort_perm _).mem_iff
  have hrow := Edit.pairwise_sort_of_compatible
    (fun e he => (hinvariant.sited e he).start_lt_stop) hinvariant.compatible
  refine Edit.carriedOut_eq_self (fun _ _ => Nat.zero_le _) (hrow.imp_of_mem ?_)
  intro e f he hf hboth
  exact hboth.resolve_right
    (not_takenBy_of_joined hjoined f ((hmem f).1 hf) e ((hmem e).1 he))

/-- A step promotes a connector just if it keeps a clause to which a `WHERE` is owed. -/
theorem length_promotions_edits (hjoined : KeepsJoinedOnly lacks text)
    (hsteps : steps lacks text = done ++ step :: later) :
    (Edit.promotions step.edits).length =
      if step.keeps = true ∧ OwesWhere done then 1 else 0 := by
  by_cases howed : step.keeps = true ∧ OwesWhere done
  · obtain ⟨span, hdecision, _⟩ := exists_promoted hjoined hsteps howed.1 howed.2
    rw [if_pos howed, Step.edits, hdecision]
    rfl
  · rw [if_neg howed, Step.edits]
    cases hdecision : step.decision with
    | swallowed => rfl
    | remove upper? => cases upper? <;> rfl
    | keep promoted? =>
      cases promoted? with
      | none => rfl
      | some span =>
        have hkeeps : step.keeps = true := by simp [Step.keeps, hdecision]
        exact absurd ⟨hkeeps, ((promoted_iff hsteps hdecision span).1 rfl).1⟩ howed

/-- A run promotes a connector for each clause that is kept while a `WHERE` is owed. -/
theorem length_promotions_editsOf (hjoined : KeepsJoinedOnly lacks text)
    (hsteps : steps lacks text = done ++ later) :
    (Edit.promotions (editsOf done)).length = owedCount done := by
  induction done using List.reverseRecOn generalizing later with
  | nil => rfl
  | append_singleton done step ih =>
    rw [List.append_assoc, List.singleton_append] at hsteps
    rw [owedCount_concat, ← ih hsteps, ← length_promotions_edits hjoined hsteps, editsOf_append,
      editsOf_singleton, Edit.promotions_append, List.length_append]

theorem length_promotions_carriedOut (hjoined : KeepsJoinedOnly lacks text) :
    (Edit.promotions (carriedOut lacks text)).length = owedCount (steps lacks text) := by
  have hperm : (Edit.promotions (Edit.sort (editsOf (steps lacks text)))).Perm
      (Edit.promotions (editsOf (steps lacks text))) := (Edit.sort_perm _).filterMap _
  rw [carriedOut_eq_sort hjoined, hperm.length_eq]
  exact length_promotions_editsOf hjoined (List.append_nil _).symm

end Run

end Pruning

/-- Where only clauses with an `AND` or `OR` of their own are kept while a `WHERE` is owed, each of
them has a connector promoted that begins no later than the clause. No other edit touches it, so
the pruned text has as many `WHERE`s written into it as there are such clauses. -/
theorem prune_promotes_owed (template : String) (bindings : Bindings)
    (hjoined : Pruning.KeepsJoinedOnly bindings.lacks template.toList) :
    let text := template.toList
    let steps := Pruning.steps bindings.lacks text
    let carried := Pruning.carriedOut bindings.lacks text
    (∀ done step later, steps = done ++ step :: later → step.keeps = true →
      (Pruning.progressAfter done).owesWhere = true →
        ∃ span, step.decision = .keep (some span) ∧ span.start ≤ step.clause.span.start ∧
          (∀ e ∈ Pruning.editsOf done ++ Pruning.editsOf later, e.span.overlaps span = false) ∧
          .promote span ∈ carried) ∧
    (∃ result, Edit.Laid [] carried text result ∧
      (prune false bindings.lacks template).sql = String.ofList (trim result)) ∧
    (Edit.promotions carried).length = Pruning.owedCount steps := by
  intro text steps carried
  refine ⟨fun done step later hsteps hkeeps howes => ?_,
    Pruning.exists_laid_removing bindings.lacks template,
    Pruning.length_promotions_carriedOut hjoined⟩
  obtain ⟨span, hdecision, hstart⟩ :=
    Pruning.exists_promoted hjoined hsteps hkeeps ((Pruning.owesWhere_iff done).2 howes)
  have hmem := Pruning.promote_mem_editsOf hsteps hdecision
  refine ⟨span, hdecision, hstart, Pruning.overlaps_promoted hjoined hsteps hdecision, ?_⟩
  exact Pruning.mem_carriedOut_iff.2 ⟨hmem, Pruning.not_takenBy_of_joined hjoined _ hmem⟩

/-- Two filters lose their `WHERE`s. The first clause that is kept has the `AND` of a join condition
promoted, and the second one the `AND` of the first. -/
theorem prune_promotes_owed_join :
    let template :=
      "SELECT 1 FROM t JOIN v ON i AND j WHERE a=:x AND b=:y UNION SELECT 2 WHERE c=:x OR d=:y"
    let text := template.toList
    let bindings := (Bindings.ofTemplate text).assign (.assigned "y" (.int 1) false)
    let done : List Pruning.Step :=
      [⟨⟨⟨34, 44⟩, .where_, "a", .equal, "x"⟩, .remove none⟩,
        ⟨⟨⟨45, 53⟩, .and, "b", .equal, "y"⟩, .keep (some ⟨28, 31⟩)⟩,
        ⟨⟨⟨69, 79⟩, .where_, "c", .equal, "x"⟩, .remove none⟩]
    let step : Pruning.Step := ⟨⟨⟨80, 87⟩, .or, "d", .equal, "y"⟩, .keep (some ⟨45, 48⟩)⟩
    Pruning.KeepsJoinedOnly bindings.lacks text ∧
      (Pruning.steps bindings.lacks text = done ++ step :: [] ∧ step.keeps = true ∧
        (Pruning.progressAfter done).owesWhere = true ∧
        ∃ span, step.decision = .keep (some span) ∧ span.start ≤ step.clause.span.start ∧
          (∀ e ∈ Pruning.editsOf done ++ Pruning.editsOf [], e.span.overlaps span = false) ∧
          .promote span ∈ Pruning.carriedOut bindings.lacks text) ∧
      (Edit.promotions (Pruning.carriedOut bindings.lacks text)).length =
        Pruning.owedCount (Pruning.steps bindings.lacks text) ∧
      Pruning.owedCount (Pruning.steps bindings.lacks text) = 2 := by
  intro template text bindings done step
  have hsteps : Pruning.steps bindings.lacks text = done ++ step :: [] := by decide +kernel
  have hconnectors : ∀ s ∈ done ++ step :: [], s.keeps = true → s.clause.connector ≠ .where_ := by
    decide
  have hjoined : Pruning.KeepsJoinedOnly bindings.lacks text := by
    intro before s after hcut hkeeps _
    apply hconnectors s _ hkeeps
    rw [← hsteps, hcut]
    simp
  have howes : (Pruning.progressAfter done).owesWhere = true := rfl
  obtain ⟨hpromoted, _, hcount⟩ := prune_promotes_owed template bindings hjoined
  refine ⟨hjoined, ⟨hsteps, rfl, howes, hpromoted done step [] hsteps rfl howes⟩, hcount, ?_⟩
  rw [hsteps]
  decide

end SqlTemplate
