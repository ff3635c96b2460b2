import SqlTemplate.Bindings
import SqlTemplate.Proofs.Pruning.Run
import SqlTemplate.Pruning

namespace SqlTemplate.Pruning

open Connector

/-- Every connector that pruning replaces by `WHERE` introduces the clause whose survival called for
it: the first one that is kept after a removed `WHERE`, if it begins with `AND` or `OR`. -/
def PromotesOwn (lacks : String → Bool) (text : List Char) : Prop :=
  ∀ span, .promote span ∈ carriedOut lacks text →
    ∀ done step later, steps lacks text = done ++ step :: later →
      step.decision = .keep (some span) →
        OwesWhere done ∧ step.clause.connector ≠ .where_ ∧ span = step.clause.connectorSpan

/-- Behind the steps `done`, the search for a connector leads to the one that introduces a clause:
every `AND` and `OR` in front of it is changed already. Where a `WHERE` introduces the clause, the
search leads nowhere, or to a connector that is removed later. -/
def FindsOwn (lacks : String → Bool) (text : List Char) (done : List Step) (clause : Clause) :
    Prop :=
  (clause.connector ≠ .where_ → ∀ joining ∈ joiningSpans text,
    joining.start < clause.span.start → ∃ e ∈ editsOf done, e.span.overlaps joining) ∧
  (clause.connector = .where_ → ∀ joining,
    firstJoiningOutside? ((editsOf done).map Edit.span) text = some joining →
      ∃ e ∈ editsOf (steps lacks text), (Edit.promote joining).TakenBy e)

section Run

variable {lacks : String → Bool} {text : List Char} {done later : List Step} {step : Step}

/-- The clauses of a run follow one another. -/
theorem pairwise_steps (lacks : String → Bool) (text : List Char) :
    (steps lacks text).Pairwise fun s t => s.clause.span.stop ≤ t.clause.span.start := by
  have hclauses := Clause.pairwise_clauses text
  rw [← map_clause_steps lacks text] at hclauses
  exact List.pairwise_map.1 hclauses

/-- A run may be cut at any step that was made earlier, too. -/
theorem exists_steps_eq_of_mem (hsteps : steps lacks text = done ++ step :: later) {s : Step}
    (hs : s ∈ done) :
    ∃ before after, done = before ++ s :: after ∧
      steps lacks text = before ++ s :: (after ++ step :: later) := by
  obtain ⟨before, after, rfl⟩ := List.append_of_mem hs
  refine ⟨before, after, rfl, ?_⟩
  rw [hsteps]
  simp

theorem exists_invariant_of_steps_eq (hsteps : steps lacks text = done ++ step :: later) :
    ∃ ahead, Invariant text done (step.clause :: ahead) ∧
      step.decision = (progressAfter done).decide lacks text step.clause := by
  obtain ⟨ahead, hreaches, hlater⟩ := reaches_of_steps_eq hsteps
  cases ahead with
  | nil => simp [stepsFrom] at hlater
  | cons clause ahead =>
    obtain ⟨rfl, _⟩ := List.cons.inj hlater
    exact ⟨ahead, hreaches.invariant, rfl⟩

theorem exists_of_keeps (hkeeps : step.keeps = true) :
    ∃ promoted?, step.decision = .keep promoted? := by
  cases hdecision : step.decision with
  | keep promoted? => exact ⟨promoted?, rfl⟩
  | swallowed => simp [Step.keeps, hdecision] at hkeeps
  | remove upper? => simp [Step.keeps, hdecision] at hkeeps

/-- What a kept clause promotes. -/
theorem promoted_iff (hsteps : steps lacks text = done ++ step :: later) {promoted? : Option Span}
    (hkeep : step.decision = .keep promoted?) (span : Span) :
    promoted? = some span ↔
      OwesWhere done ∧ firstJoiningOutside? ((editsOf done).map Edit.span) text = some span := by
  obtain ⟨ahead, hinvariant, hdecision⟩ := exists_invariant_of_steps_eq hsteps
  obtain ⟨_, _, hpromoted⟩ := removedTo_le_of_decide_keep (hdecision.symm.trans hkeep)
  have htaken : ∀ s, s ∈ (editsOf done).map Edit.span ↔ s ∈ (progressAfter done).taken := fun s =>
    List.mem_map.trans (hinvariant.taken s).symm
  rw [hpromoted, hinvariant.owes, firstJoiningOutside?_eq_some_iff,
    firstJoiningOutside?_eq_some_iff]
  simp only [htaken]

theorem clause_mem_clauses (hsteps : steps lacks text = done ++ step :: later) :
    step.clause ∈ clauses text := by
  obtain ⟨ahead, hinvariant, _⟩ := exists_invariant_of_steps_eq hsteps
  exact hinvariant.mem_clauses

/-- The connector of a clause lies within the clause. -/
theorem connectorSpan_stop_le {clause : Clause} (hmem : clause ∈ clauses text) :
    clause.connectorSpan.stop ≤ clause.span.stop := by
  obtain ⟨front, reading, rest, hat⟩ := Clause.exists_at_of_mem_clauses hmem
  rw [hat.connectorSpan_eq, hat.conditionAt.span_eq]
  simp only [Span.behind_stop, byteLen_append]
  omega

theorem connectorSpan_mem_joiningSpans {clause : Clause} (hmem : clause ∈ clauses text)
    (hjoins : clause.connector ≠ .where_) : clause.connectorSpan ∈ joiningSpans text := by
  obtain ⟨front, reading, rest, hat⟩ := Clause.exists_at_of_mem_clauses hmem
  exact mem_joiningSpans_iff.2 ⟨_, _, _, hat.joiningAt hjoins⟩

/-- What a run removes lies in front of a kept clause or behind it. -/
theorem removal_apart (hsteps : steps lacks text = done ++ step :: later)
    (hkeeps : step.keeps = true) {e : Edit} (hmem : e ∈ editsOf (steps lacks text))
    (hplain : e.isPromotion = false) :
    e ∈ editsOf done ∧ e.span.stop ≤ step.clause.span.start ∨
      step.clause.span.stop ≤ e.span.start := by
  obtain ⟨promoted?, hkeep⟩ := exists_of_keeps hkeeps
  obtain ⟨ahead, hinvariant, hdecision⟩ := exists_invariant_of_steps_eq hsteps
  obtain ⟨hbehind, _, _⟩ := removedTo_le_of_decide_keep (hdecision.symm.trans hkeep)
  obtain ⟨s, hs, he⟩ := List.mem_flatMap.1 hmem
  rw [hsteps, List.mem_append, List.mem_cons] at hs
  obtain hs | rfl | hs := hs
  · have hdone : e ∈ editsOf done := List.mem_flatMap.2 ⟨s, hs, he⟩
    exact .inl ⟨hdone, Nat.le_trans (hinvariant.removed e hdone hplain) hbehind⟩
  · obtain ⟨_, hother, _⟩ | ⟨span, _, rfl⟩ := Step.mem_edits_iff.1 he
    · rw [hkeep] at hother
      cases hother
    · cases hplain
  · obtain ⟨_, hwhole⟩ := invariant_steps lacks text
    have hle := hwhole.behind s (by rw [hsteps]; simp [hs]) e he hplain
    have hrow := pairwise_steps lacks text
    rw [hsteps] at hrow
    have hafter := (List.pairwise_cons.1 (List.pairwise_append.1 hrow).2.1).1 s hs
    exact .inr (by omega)

/-- Nothing made so far touches the connector of a kept clause, if what was promoted so far
introduces its own clause. -/
theorem overlaps_connectorSpan (hsteps : steps lacks text = done ++ step :: later)
    (hkeeps : step.keeps = true)
    (hown : ∀ s ∈ done, ∀ span, s.decision = .keep (some span) →
      .promote span ∈ carriedOut lacks text → span = s.clause.connectorSpan) :
    ∀ e ∈ editsOf done, e.span.overlaps step.clause.connectorSpan = false := by
  intro e hmem
  by_contra hoverlaps
  obtain ⟨hstart, hstop⟩ := Span.overlaps_iff.1 (eq_true_of_ne_false hoverlaps)
  have hwithin := connectorSpan_stop_le (clause_mem_clauses hsteps)
  have hbegins : step.clause.connectorSpan.start = step.clause.span.start := rfl
  have hall : e ∈ editsOf (steps lacks text) := by
    rw [hsteps, editsOf_append]
    exact List.mem_append_left _ hmem
  have hapart : ∀ f ∈ editsOf (steps lacks text), f.isPromotion = false →
      ¬ (f.span.start ≤ e.span.start ∧ e.span.stop ≤ f.span.stop) := by
    intro f hf hplain hcontains
    obtain ⟨_, hbefore⟩ | hafter := removal_apart hsteps hkeeps hf hplain <;> omega
  cases hpromotes : e.isPromotion with
  | false => exact hapart e hall hpromotes ⟨Nat.le_refl _, Nat.le_refl _⟩
  | true =>
    obtain ⟨s, hs, he⟩ := List.mem_flatMap.1 hmem
    obtain ⟨_, _, hremoved⟩ | ⟨span, hkeep, rfl⟩ := Step.mem_edits_iff.1 he
    · obtain rfl | ⟨_, _, rfl⟩ := hremoved <;> cases hpromotes
    · have hcarried : .promote span ∈ carriedOut lacks text :=
        mem_carriedOut_iff.2 ⟨hall, fun f hf htaken => hapart f hf htaken.2.1 htaken.2.2⟩
      obtain rfl := hown s hs span hkeep hcarried
      have hrow := pairwise_steps lacks text
      rw [hsteps] at hrow
      have hbefore := (List.pairwise_append.1 hrow).2.2 s hs step List.mem_cons_self
      obtain ⟨before, after, _, hsteps'⟩ := exists_steps_eq_of_mem hsteps hs
      have hwithin' := connectorSpan_stop_le (clause_mem_clauses hsteps')
      simp only [Edit.span] at hstop
      omega

theorem promote_mem_editsOf (hsteps : steps lacks text = done ++ step :: later) {span : Span}
    (hdecision : step.decision = .keep (some span)) :
    .promote span ∈ editsOf (steps lacks text) := by
  refine List.mem_flatMap.2 ⟨step, ?_, Step.mem_edits_iff.2 (.inr ⟨span, hdecision, rfl⟩)⟩
  rw [hsteps]
  simp

/-- A connector in front of the clause that promotes it is not removed. -/
theorem promote_mem_carriedOut (hsteps : steps lacks text = done ++ step :: later) {span : Span}
    (hdecision : step.decision = .keep (some span))
    (hbefore : span.start < step.clause.span.start) :
    .promote span ∈ carriedOut lacks text := by
  have hkeeps : step.keeps = true := by simp [Step.keeps, hdecision]
  obtain ⟨_, hfirst⟩ := (promoted_iff hsteps hdecision span).1 rfl
  obtain ⟨hmem, hfree, _⟩ := firstJoiningOutside?_eq_some_iff.1 hfirst
  have hspan := start_lt_stop_of_mem_joiningSpans hmem
  obtain ⟨_, _, _, hat⟩ := Clause.exists_at_of_mem_clauses (clause_mem_clauses hsteps)
  have hclause := hat.conditionAt.start_lt_stop
  refine mem_carriedOut_iff.2 ⟨promote_mem_editsOf hsteps hdecision, ?_⟩
  rintro f hf ⟨_, hplain, hstart, hstop⟩
  change f.span.start ≤ span.start at hstart
  change span.stop ≤ f.span.stop at hstop
  obtain ⟨hdone, _⟩ | hafter := removal_apart hsteps hkeeps hf hplain
  · have hapart := hfree f.span (List.mem_map_of_mem hdone)
    rw [Span.overlaps_iff.2 ⟨by omega, by omega⟩] at hapart
    cases hapart
  · omega

/-- The search comes to a clause's own connector, if it has not been changed and every `AND` and
`OR` in front of it has. -/
theorem eq_connectorSpan_of_first (hsteps : steps lacks text = done ++ step :: later)
    (hjoins : step.clause.connector ≠ .where_)
    (hfree : ∀ e ∈ editsOf done, e.span.overlaps step.clause.connectorSpan = false)
    (hchanged : ∀ joining ∈ joiningSpans text, joining.start < step.clause.span.start →
      ∃ e ∈ editsOf done, e.span.overlaps joining) {span : Span}
    (hfirst : firstJoiningOutside? ((editsOf done).map Edit.span) text = some span) :
    span = step.clause.connectorSpan := by
  have hown := connectorSpan_mem_joiningSpans (clause_mem_clauses hsteps) hjoins
  obtain ⟨hmem, hspanFree, hearlier⟩ := firstJoiningOutside?_eq_some_iff.1 hfirst
  have hspan := start_lt_stop_of_mem_joiningSpans hmem
  have howner := start_lt_stop_of_mem_joiningSpans hown
  by_contra hother
  obtain hbefore | hbehind := stop_le_start_of_mem_joiningSpans hmem hown hother
  · have hbegins : step.clause.connectorSpan.start = step.clause.span.start := rfl
    obtain ⟨e, he, hoverlaps⟩ := hchanged span hmem (by omega)
    rw [hspanFree e.span (List.mem_map_of_mem he)] at hoverlaps
    cases hoverlaps
  · obtain ⟨other, hmemOther, hoverlaps⟩ := hearlier _ hown (by omega)
    obtain ⟨e, he, rfl⟩ := List.mem_map.1 hmemOther
    rw [hfree e he] at hoverlaps
    cases hoverlaps

/-- If the connector of a kept clause is the one that is promoted, no `AND` or `OR` in front of it
was left. -/
theorem findsOwn_of_promotesOwn (howns : PromotesOwn lacks text)
    (hsteps : steps lacks text = done ++ step :: later) (hkeeps : step.keeps = true)
    (howes : OwesWhere done) : FindsOwn lacks text done step.clause := by
  obtain ⟨promoted?, hkeep⟩ := exists_of_keeps hkeeps
  have hmade : ∀ span, firstJoiningOutside? ((editsOf done).map Edit.span) text = some span →
      step.decision = .keep (some span) := by
    intro span hfirst
    rw [hkeep, (promoted_iff hsteps hkeep span).2 ⟨howes, hfirst⟩]
  refine ⟨fun hjoins joining hmem hbefore => ?_, fun hwhere joining hfirst => ?_⟩
  · have hfree := overlaps_connectorSpan hsteps hkeeps fun s hs span hdecision hcarried => by
      obtain ⟨before, after, _, hsteps'⟩ := exists_steps_eq_of_mem hsteps hs
      exact (howns span hcarried before s _ hsteps' hdecision).2.2
    have hown := connectorSpan_mem_joiningSpans (clause_mem_clauses hsteps) hjoins
    by_contra hnone
    cases hfirst : firstJoiningOutside? ((editsOf done).map Edit.span) text with
    | none =>
      obtain ⟨other, hother, hoverlaps⟩ := firstJoiningOutside?_eq_none_iff.1 hfirst _ hown
      obtain ⟨e, he, rfl⟩ := List.mem_map.1 hother
      rw [hfree e he] at hoverlaps
      cases hoverlaps
    | some first =>
      obtain ⟨_, _, hearlier⟩ := firstJoiningOutside?_eq_some_iff.1 hfirst
      have hle : first.start ≤ joining.start := by
        by_contra hlater
        obtain ⟨other, hother, hoverlaps⟩ := hearlier joining hmem (Nat.lt_of_not_le hlater)
        obtain ⟨e, he, rfl⟩ := List.mem_map.1 hother
        exact hnone ⟨e, he, hoverlaps⟩
      have hcarried := promote_mem_carriedOut hsteps (hmade first hfirst)
        (Nat.lt_of_le_of_lt hle hbefore)
      obtain ⟨_, _, rfl⟩ := howns first hcarried done step later hsteps (hmade first hfirst)
      exact absurd hle (Nat.not_le_of_lt hbefore)
  · by_contra hnone
    have hcarried : .promote joining ∈ carriedOut lacks text :=
      mem_carriedOut_iff.2 ⟨promote_mem_editsOf hsteps (hmade joining hfirst),
        fun f hf htaken => hnone ⟨f, hf, htaken⟩⟩
    exact (howns joining hcarried done step later hsteps (hmade joining hfirst)).2.1 hwhere

end Run

/-- All promotions are of their clauses' own connectors exactly if at each clause that is kept after
a removed `WHERE` the search leads to the clause's own. The search goes through the whole text, so
it may come to an `AND` or `OR` that introduces no clause. -/
theorem promotesOwn_iff (lacks : String → Bool) (text : List Char) :
    PromotesOwn lacks text ↔
      ∀ done step later, steps lacks text = done ++ step :: later → step.keeps = true →
        OwesWhere done → FindsOwn lacks text done step.clause := by
  constructor
  · intro howns done step later hsteps hkeeps howes
    exact findsOwn_of_promotesOwn howns hsteps hkeeps howes
  · intro hfinds span hcarried done
    -- What was promoted before introduces its own clause, so it left this clause's connector alone.
    induction hlength : done.length using Nat.strongRecOn generalizing done span with
    | _ length ih =>
      subst hlength
      intro step later hsteps hdecision
      have hkeeps : step.keeps = true := by simp [Step.keeps, hdecision]
      obtain ⟨howes, hfirst⟩ := (promoted_iff hsteps hdecision span).1 rfl
      obtain ⟨hjoins, hwhere⟩ := hfinds done step later hsteps hkeeps howes
      have hne : step.clause.connector ≠ .where_ := by
        intro heq
        obtain ⟨f, hf, htaken⟩ := hwhere heq span hfirst
        exact (mem_carriedOut_iff.1 hcarried).2 f hf htaken
      have hfree := overlaps_connectorSpan hsteps hkeeps fun s hs span' hdecision' hcarried' => by
        obtain ⟨before, after, hdone, hsteps'⟩ := exists_steps_eq_of_mem hsteps hs
        have hshorter : before.length < done.length := by
          rw [hdone, List.length_append, List.length_cons]
          omega
        exact (ih before.length hshorter span' hcarried' before rfl s _ hsteps' hdecision').2.2
      exact ⟨howes, hne, eq_connectorSpan_of_first hsteps hne hfree (hjoins hne) hfirst⟩

/-- An `AND` of a join condition is replaced where the first of two clauses is removed. -/
theorem not_promotesOwn_join :
    let template := "SELECT * FROM t JOIN u ON t.a = u.a AND u.b = 1 WHERE a = :x AND b = :y"
    let bindings := (Bindings.ofTemplate template.toList).assign (.assigned "y" (.int 1) false)
    (prune false bindings.lacks template).sql =
        "SELECT * FROM t JOIN u ON t.a = u.a WHERE u.b = 1  AND b = :y" ∧
      ¬ PromotesOwn bindings.lacks template.toList := by
  intro template bindings
  refine ⟨by decide +kernel, fun howns => ?_⟩
  have hsteps : steps bindings.lacks template.toList =
      [⟨⟨⟨48, 60⟩, .where_, "a", .equal, "x"⟩, .remove none⟩,
        ⟨⟨⟨61, 71⟩, .and, "b", .equal, "y"⟩, .keep (some ⟨36, 39⟩)⟩] := by decide +kernel
  have hcarried : .promote ⟨36, 39⟩ ∈ carriedOut bindings.lacks template.toList := by
    decide +kernel
  obtain ⟨_, _, heq⟩ := howns ⟨36, 39⟩ hcarried [_] _ [] hsteps rfl
  exact absurd heq (by decide)

end SqlTemplate.Pruning
