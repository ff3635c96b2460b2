import Mathlib.Data.List.Induction
import SqlTemplate.Proofs.Clause.Places
import SqlTemplate.Proofs.Pruning.Edits
import SqlTemplate.Pruning.Step

namespace SqlTemplate

open Connector

/-- A free-standing `AND` or `OR` that overlaps a condition belongs to it. -/
theorem JoiningAt.within_of_overlaps {text front word rest front' keyword behind rest' : List Char}
    {span span' : Span} (hjoining : JoiningAt text span front word rest)
    (hcondition : ConditionAt text span' front' keyword behind rest')
    (hoverlaps : span.overlaps span') : span'.start ≤ span.start ∧ span.stop ≤ span'.stop := by
  have htext := hjoining.text_eq.symm.trans hcondition.text_eq
  rw [Span.overlaps_iff] at hoverlaps
  simp only [hjoining.span_eq, hcondition.span_eq, Span.behind_start, Span.behind_stop]
    at hoverlaps ⊢
  constructor
  · by_contra hbefore
    rw [List.append_assoc front'] at htext
    obtain ⟨gap, tail, hne, _, rfl, rfl, _⟩ :=
      split_of_within htext (Nat.lt_of_not_le hbefore) hoverlaps.2
    obtain ⟨c, hc, hlast⟩ := lastFrom_mem (lastFrom none front) hne
    have hfree := hcondition.free
    rw [lastFrom_append, hlast, isWordBeside_some,
      hjoining.isWordChar c (List.mem_append_left _ hc)] at hfree
    cases hfree
  · by_contra hbehind
    obtain ⟨gap, tail, _, hne, rfl, _, rfl⟩ := split_of_within htext
      (by rw [byteLen_append]; exact hoverlaps.1)
      (by rw [byteLen_append]; exact Nat.lt_of_not_le hbehind)
    obtain ⟨c, cs, rfl⟩ := List.exists_cons_of_ne_nil hne
    have hpart := hjoining.isNamePart c (by simp)
    rw [hcondition.ends c rfl] at hpart
    cases hpart

namespace Pruning

/-- What stands where an edit is made: a condition where it removes, a free-standing `AND` or `OR`
where it promotes. -/
def Sited (text : List Char) : Edit → Prop
  | .remove span => ∃ front keyword behind rest, ConditionAt text span front keyword behind rest
  | .promote span => ∃ front word rest, JoiningAt text span front word rest

theorem Sited.start_lt_stop {text : List Char} {e : Edit} (hsited : Sited text e) :
    e.span.start < e.span.stop := by
  cases e with
  | remove span =>
    obtain ⟨_, _, _, _, hat⟩ := hsited
    exact hat.start_lt_stop
  | promote span =>
    obtain ⟨_, _, _, hat⟩ := hsited
    exact hat.start_lt_stop

/-- A removal that begins behind all earlier ones is compatible with what was done before. -/
theorem compatible_removal {text : List Char} {e : Edit} {span : Span} (he : Sited text e)
    (hremoval : Sited text (.remove span))
    (hbehind : e.isPromotion = false → e.span.stop ≤ span.start) :
    e.Compatible (.remove span) := by
  cases e with
  | remove span' =>
    refine .inl ?_
    by_contra hoverlaps
    have hstarts := (Span.overlaps_iff.1 (eq_true_of_ne_false hoverlaps)).2
    have hle := hbehind rfl
    simp only [Edit.span] at hstarts hle
    omega
  | promote span' =>
    obtain ⟨_, _, _, hjoining⟩ := he
    obtain ⟨_, _, _, _, hcondition⟩ := hremoval
    by_cases hoverlaps : span'.overlaps span
    · exact .inr (.inl ⟨rfl, rfl, hjoining.within_of_overlaps hcondition hoverlaps⟩)
    · exact .inl (eq_false_of_ne_true hoverlaps)

/-- All changes that steps make. -/
def editsOf (steps : List Step) : List Edit :=
  steps.flatMap Step.edits

@[simp]
theorem editsOf_append (steps steps' : List Step) :
    editsOf (steps ++ steps') = editsOf steps ++ editsOf steps' := by
  simp [editsOf]

@[simp]
theorem editsOf_singleton (step : Step) : editsOf [step] = step.edits := by
  simp [editsOf]

namespace Step

/-- Whether the clause is removed, or kept. A clause within a removed stretch is neither. -/
def removes (step : Step) : Bool :=
  match step.decision with
  | .remove _ => true
  | .swallowed | .keep _ => false

def keeps (step : Step) : Bool :=
  match step.decision with
  | .keep _ => true
  | .swallowed | .remove _ => false

theorem mem_edits_iff {step : Step} {e : Edit} :
    e ∈ step.edits ↔
      (∃ upper?, step.decision = .remove upper? ∧
        (e = .remove step.clause.span ∨ ∃ upper ∈ upper?, e = .remove upper.span)) ∨
      ∃ span, step.decision = .keep (some span) ∧ e = .promote span := by
  obtain ⟨clause, decision⟩ := step
  cases decision with
  | swallowed => simp [edits]
  | remove upper? => cases upper? <;> simp [edits]
  | keep promoted? => cases promoted? <;> simp [edits]

end Step

/-- Some clause with a `WHERE` was removed, and none was kept since. -/
def OwesWhere (steps : List Step) : Prop :=
  ∃ earlier step later, steps = earlier ++ step :: later ∧ step.removes = true ∧
    step.clause.connector = .where_ ∧ ∀ s ∈ later, s.keeps = false

theorem not_owesWhere_nil : ¬ OwesWhere [] := by
  rintro ⟨earlier, step, later, heq, _⟩
  simp at heq

theorem owesWhere_concat_iff {steps : List Step} {step : Step} :
    OwesWhere (steps ++ [step]) ↔
      step.keeps = false ∧
        (OwesWhere steps ∨ step.removes = true ∧ step.clause.connector = .where_) := by
  constructor
  · rintro ⟨earlier, first, later, heq, hremoves, hwhere, hnone⟩
    obtain rfl | ⟨later, last, rfl⟩ := later.eq_nil_or_concat'
    · obtain ⟨rfl, rfl⟩ := List.append_inj' heq rfl |>.imp id fun h => (List.cons.inj h).1
      refine ⟨?_, .inr ⟨hremoves, hwhere⟩⟩
      cases hdecision : step.decision <;> simp [Step.removes, Step.keeps, hdecision] at hremoves ⊢
    · have heq' : steps ++ [step] = (earlier ++ first :: later) ++ [last] := by simpa using heq
      obtain ⟨rfl, hlast⟩ := List.append_inj' heq' rfl
      obtain rfl := (List.cons.inj hlast).1
      exact ⟨hnone step (by simp), .inl ⟨earlier, first, later, rfl, hremoves, hwhere,
        fun s hs => hnone s (by simp [hs])⟩⟩
  · rintro ⟨hkeeps, ⟨earlier, first, later, rfl, hremoves, hwhere, hnone⟩ | ⟨hremoves, hwhere⟩⟩
    · refine ⟨earlier, first, later ++ [step], by simp, hremoves, hwhere, fun s hs => ?_⟩
      obtain hs | hs := List.mem_append.1 hs
      · exact hnone s hs
      · obtain rfl := List.mem_singleton.1 hs
        exact hkeeps
    · exact ⟨steps, step, [], rfl, hremoves, hwhere, by simp⟩

/-- What is settled after steps. -/
def progressAfter (steps : List Step) : Progress :=
  steps.foldl Progress.after .start

@[simp]
theorem progressAfter_concat (steps : List Step) (step : Step) :
    progressAfter (steps ++ [step]) = (progressAfter steps).after step := by
  simp [progressAfter]

section Decide

variable {lacks : String → Bool} {text : List Char} {progress : Progress} {clause : Clause}

theorem removedTo_le_of_decide_remove {upper? : Option UpperBound}
    (hdecide : progress.decide lacks text clause = .remove upper?) :
    progress.removedTo ≤ clause.span.start ∧ lacks clause.placeholder = true ∧
      ∀ upper ∈ upper?, upperBoundAt? text clause.span.stop = some upper := by
  unfold Progress.decide at hdecide
  split at hdecide
  · cases hdecide
  · next hbehind =>
    split at hdecide
    · next hlacks =>
      obtain rfl := Decision.remove.inj hdecide
      refine ⟨Nat.le_of_not_lt hbehind, hlacks, fun upper hupper => ?_⟩
      split at hupper
      · exact hupper
      · simp at hupper
    · cases hdecide

theorem removedTo_le_of_decide_keep {promoted? : Option Span}
    (hdecide : progress.decide lacks text clause = .keep promoted?) :
    progress.removedTo ≤ clause.span.start ∧ lacks clause.placeholder = false ∧
      ∀ span, promoted? = some span ↔
        progress.owesWhere = true ∧ firstJoiningOutside? progress.taken text = some span := by
  unfold Progress.decide at hdecide
  split at hdecide
  · cases hdecide
  · next hbehind =>
    split at hdecide
    · cases hdecide
    · next hlacks =>
      obtain rfl := Decision.keep.inj hdecide
      refine ⟨Nat.le_of_not_lt hbehind, by simpa using hlacks, fun span => ?_⟩
      split <;> simp_all

end Decide

/-- Where a run can be: the steps made and the clauses ahead. -/
inductive Reaches (lacks : String → Bool) (text : List Char) : List Step → List Clause → Prop where
  | start : Reaches lacks text [] (clauses text)
  | step {done : List Step} {clause : Clause} {ahead : List Clause} :
    Reaches lacks text done (clause :: ahead) →
      Reaches lacks text (done ++ [⟨clause, (progressAfter done).decide lacks text clause⟩]) ahead

/-- What holds wherever a run can be. All edits stand at conditions or at free-standing `AND`s and
`OR`s, and are compatible. -/
structure Invariant (text : List Char) (done : List Step) (ahead : List Clause) : Prop where
  clauses_eq : clauses text = done.map Step.clause ++ ahead
  taken : ∀ span, span ∈ (progressAfter done).taken ↔ ∃ e ∈ editsOf done, e.span = span
  owes : (progressAfter done).owesWhere = true ↔ OwesWhere done
  removed : ∀ e ∈ editsOf done, e.isPromotion = false →
    e.span.stop ≤ (progressAfter done).removedTo
  behind : ∀ step ∈ done, ∀ e ∈ step.edits, e.isPromotion = false →
    step.clause.span.start ≤ e.span.start
  sited : ∀ e ∈ editsOf done, Sited text e
  compatible : (editsOf done).Pairwise Edit.Compatible

namespace Invariant

variable {lacks : String → Bool} {text : List Char} {done : List Step} {clause : Clause}
  {ahead : List Clause}

theorem mem_clauses (hinvariant : Invariant text done (clause :: ahead)) :
    clause ∈ clauses text := by
  simp [hinvariant.clauses_eq]

/-- What a step changes stands where it should, out of the way of what was done before. -/
theorem mem_edits (hinvariant : Invariant text done (clause :: ahead)) {e : Edit}
    (hmem : e ∈ Step.edits ⟨clause, (progressAfter done).decide lacks text clause⟩) :
    Sited text e ∧
      (e.isPromotion = false → (progressAfter done).removedTo ≤ e.span.start ∧
        clause.span.start ≤ e.span.start) ∧
      (e.isPromotion = true →
        ∀ other ∈ (progressAfter done).taken, other.overlaps e.span = false) := by
  obtain ⟨upper?, hdecide, hremoved⟩ | ⟨span, hdecide, rfl⟩ := Step.mem_edits_iff.1 hmem
  · obtain ⟨hbehind, _, hupper⟩ := removedTo_le_of_decide_remove hdecide
    obtain rfl | ⟨upper, hmemUpper, rfl⟩ := hremoved
    · obtain ⟨_, _, _, hat⟩ := Clause.exists_at_of_mem_clauses hinvariant.mem_clauses
      exact ⟨⟨_, _, _, _, hat.conditionAt⟩, fun _ => ⟨hbehind, Nat.le_refl _⟩, nofun⟩
    · obtain ⟨hafter, hsited⟩ := UpperBound.exists_conditionAt_of_mem_clauses
        hinvariant.mem_clauses (hupper upper hmemUpper)
      obtain ⟨_, _, _, hat⟩ := Clause.exists_at_of_mem_clauses hinvariant.mem_clauses
      have hspan := hat.conditionAt.start_lt_stop
      refine ⟨hsited, fun _ => ?_, nofun⟩
      simp only [Edit.span]
      omega
  · obtain ⟨_, _, hpromoted⟩ := removedTo_le_of_decide_keep hdecide
    obtain ⟨_, hfirst⟩ := (hpromoted span).1 rfl
    obtain ⟨hjoining, hfree, _⟩ := firstJoiningOutside?_eq_some_iff.1 hfirst
    exact ⟨mem_joiningSpans_iff.1 hjoining, nofun, fun _ => hfree⟩

theorem pairwise_edits (hinvariant : Invariant text done (clause :: ahead)) :
    (Step.edits ⟨clause, (progressAfter done).decide lacks text clause⟩).Pairwise
      Edit.Compatible := by
  cases hdecide : (progressAfter done).decide lacks text clause with
  | swallowed => exact .nil
  | keep promoted? => cases promoted? <;> simp [Step.edits]
  | remove upper? =>
    cases upper? with
    | none => simp [Step.edits]
    | some upper =>
      obtain ⟨_, _, hupper⟩ := removedTo_le_of_decide_remove hdecide
      obtain ⟨hafter, _⟩ :=
        UpperBound.exists_conditionAt_of_mem_clauses hinvariant.mem_clauses (hupper upper rfl)
      have hapart : clause.span.overlaps upper.span = false := by
        by_contra hoverlaps
        have hstarts := (Span.overlaps_iff.1 (eq_true_of_ne_false hoverlaps)).2
        omega
      simp [Step.edits, Edit.Compatible, Edit.span, hapart]

theorem compatible_of_mem_edits (hinvariant : Invariant text done (clause :: ahead)) {e f : Edit}
    (he : e ∈ editsOf done)
    (hf : f ∈ Step.edits ⟨clause, (progressAfter done).decide lacks text clause⟩) :
    e.Compatible f := by
  obtain ⟨hsited, hremoval, hpromotion⟩ := hinvariant.mem_edits hf
  cases f with
  | remove span =>
    refine compatible_removal (hinvariant.sited e he) hsited fun hplain => ?_
    exact Nat.le_trans (hinvariant.removed e he hplain) (hremoval rfl).1
  | promote span => exact .inl (hpromotion rfl e.span ((hinvariant.taken e.span).2 ⟨e, he, rfl⟩))

/-- What is removed so far ends where the progress says. -/
theorem stop_le_removedTo_after (hinvariant : Invariant text done (clause :: ahead)) {e : Edit}
    (hmem : e ∈ editsOf done ++ Step.edits ⟨clause, (progressAfter done).decide lacks text clause⟩)
    (hplain : e.isPromotion = false) :
    e.span.stop ≤ ((progressAfter done).after
      ⟨clause, (progressAfter done).decide lacks text clause⟩).removedTo := by
  have hdone := fun he => hinvariant.removed e he hplain
  rw [List.mem_append] at hmem
  cases hdecide : (progressAfter done).decide lacks text clause with
  | swallowed =>
    simp only [hdecide, Step.edits, List.not_mem_nil, or_false] at hmem
    exact hdone hmem
  | keep promoted? =>
    rw [hdecide] at hmem
    obtain hmem | hmem := hmem
    · exact hdone hmem
    · obtain ⟨_, hother, _⟩ | ⟨span, _, rfl⟩ := Step.mem_edits_iff.1 hmem
      · cases hother
      · cases hplain
  | remove upper? =>
    obtain ⟨hbehind, _, hupper⟩ := removedTo_le_of_decide_remove hdecide
    obtain ⟨_, _, _, hat⟩ := Clause.exists_at_of_mem_clauses hinvariant.mem_clauses
    have hspan := hat.conditionAt.start_lt_stop
    have hclause : clause.span.stop ≤
        (upper?.map fun upper => upper.span.stop).getD clause.span.stop := by
      cases upper? with
      | none => exact Nat.le_refl _
      | some upper =>
        obtain ⟨hafter, _, _, _, _, hupperAt⟩ :=
          UpperBound.exists_conditionAt_of_mem_clauses hinvariant.mem_clauses (hupper upper rfl)
        have hupperSpan := hupperAt.start_lt_stop
        simp only [Option.map_some, Option.getD_some]
        omega
    rw [hdecide] at hmem
    simp only [Progress.after]
    obtain hmem | hmem := hmem
    · have hstop := hdone hmem
      omega
    · obtain ⟨_, heq, hremoved⟩ | ⟨_, hother, _⟩ := Step.mem_edits_iff.1 hmem
      · obtain rfl := Decision.remove.inj heq
        obtain rfl | ⟨upper, hmemUpper, rfl⟩ := hremoved
        · exact hclause
        · obtain rfl := Option.mem_def.1 hmemUpper
          exact Nat.le_refl _
      · cases hother

theorem mem_taken_after (progress : Progress) (step : Step) (span : Span) :
    span ∈ (progress.after step).taken ↔
      (∃ e ∈ step.edits, e.span = span) ∨ span ∈ progress.taken := by
  obtain ⟨clause, decision⟩ := step
  cases decision with
  | swallowed => simp [Progress.after, Step.edits]
  | remove upper? => simp [Progress.after]
  | keep promoted? => simp [Progress.after]

theorem owesWhere_after (progress : Progress) (step : Step) :
    (progress.after step).owesWhere = true ↔
      step.keeps = false ∧ (progress.owesWhere = true ∨
        step.removes = true ∧ step.clause.connector = .where_) := by
  obtain ⟨clause, decision⟩ := step
  cases decision <;> simp [Progress.after, Step.keeps, Step.removes]

/-- A step preserves the invariant. -/
theorem step (hinvariant : Invariant text done (clause :: ahead)) :
    Invariant text (done ++ [⟨clause, (progressAfter done).decide lacks text clause⟩]) ahead where
  clauses_eq := by
    rw [hinvariant.clauses_eq]
    simp
  taken span := by
    rw [progressAfter_concat, mem_taken_after, hinvariant.taken, editsOf_append,
      editsOf_singleton]
    simp only [List.mem_append, or_and_right, exists_or]
    exact or_comm
  owes := by
    rw [progressAfter_concat, owesWhere_after, hinvariant.owes, owesWhere_concat_iff]
  removed e hmem hplain := by
    rw [editsOf_append, editsOf_singleton] at hmem
    rw [progressAfter_concat]
    exact hinvariant.stop_le_removedTo_after hmem hplain
  behind s hmem e he hplain := by
    obtain hmem | hmem := List.mem_append.1 hmem
    · exact hinvariant.behind s hmem e he hplain
    · obtain rfl := List.mem_singleton.1 hmem
      exact ((hinvariant.mem_edits he).2.1 hplain).2
  sited e hmem := by
    rw [editsOf_append, editsOf_singleton] at hmem
    obtain hmem | hmem := List.mem_append.1 hmem
    · exact hinvariant.sited e hmem
    · exact (hinvariant.mem_edits hmem).1
  compatible := by
    rw [editsOf_append, editsOf_singleton]
    exact List.pairwise_append.2 ⟨hinvariant.compatible, hinvariant.pairwise_edits,
      fun e he f hf => hinvariant.compatible_of_mem_edits he hf⟩

end Invariant

namespace Reaches

variable {lacks : String → Bool} {text : List Char} {done : List Step} {ahead : List Clause}

/-- The invariant holds at every place of every run. -/
theorem invariant (hreaches : Reaches lacks text done ahead) : Invariant text done ahead := by
  induction hreaches with
  | start =>
    refine ⟨rfl, ?_, ?_, ?_, ?_, ?_, .nil⟩
    · simp [progressAfter, Progress.start, editsOf]
    · simp [progressAfter, Progress.start, not_owesWhere_nil]
    · simp [editsOf]
    · simp
    · simp [editsOf]
  | step _ ih => exact ih.step

end Reaches

/-- Every beginning of a run is reached. -/
theorem reaches_of_steps_eq {lacks : String → Bool} {text : List Char} {done later : List Step}
    (hsteps : steps lacks text = done ++ later) :
    ∃ ahead, Reaches lacks text done ahead ∧
      later = stepsFrom lacks text (progressAfter done) ahead := by
  induction done using List.reverseRecOn generalizing later with
  | nil => exact ⟨clauses text, .start, hsteps.symm⟩
  | append_singleton init last ih =>
    rw [List.append_assoc] at hsteps
    obtain ⟨ahead, hreaches, hlater⟩ := ih hsteps
    cases ahead with
    | nil => simp [stepsFrom] at hlater
    | cons clause ahead =>
      obtain ⟨rfl, rfl⟩ := List.cons.inj hlater
      exact ⟨ahead, hreaches.step, by simp⟩

theorem invariant_steps (lacks : String → Bool) (text : List Char) :
    ∃ ahead, Invariant text (steps lacks text) ahead := by
  obtain ⟨ahead, hreaches, _⟩ := reaches_of_steps_eq (List.append_nil (steps lacks text)).symm
  exact ⟨ahead, hreaches.invariant⟩

/-- A run decides about each clause of the text, in order. -/
theorem map_clause_steps (lacks : String → Bool) (text : List Char) :
    (steps lacks text).map Step.clause = clauses text := by
  have hfrom : ∀ progress ahead,
      (stepsFrom lacks text progress ahead).map Step.clause = ahead := by
    intro progress ahead
    induction ahead generalizing progress with
    | nil => rfl
    | cons clause ahead ih =>
      rw [stepsFrom, List.map_cons, ih]
  exact hfrom .start (clauses text)

/-- The edits that pruning carries out. -/
def carriedOut (lacks : String → Bool) (text : List Char) : List Edit :=
  Edit.carriedOut 0 (Edit.sort (editsOf (steps lacks text)))

/-- Pruning carries out its edits, but for the promotions of connectors that it removes. -/
theorem mem_carriedOut_iff {lacks : String → Bool} {text : List Char} {e : Edit} :
    e ∈ carriedOut lacks text ↔
      e ∈ editsOf (steps lacks text) ∧ ∀ f ∈ editsOf (steps lacks text), ¬ e.TakenBy f := by
  obtain ⟨_, hinvariant⟩ := invariant_steps lacks text
  exact Edit.mem_carriedOut_sort_iff (fun f hf => (hinvariant.sited f hf).start_lt_stop)
    hinvariant.compatible

end Pruning

end SqlTemplate
