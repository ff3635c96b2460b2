import SqlTemplate.Proofs.Clause.Placeholders
import SqlTemplate.Proofs.Clause.UpperBounds
import SqlTemplate.Proofs.Pruning.Placeholders
import SqlTemplate.Proofs.Pruning.Promotion

namespace SqlTemplate

open Connector

namespace Connector

/-- A text begins with a connector, in any case, behind which no word goes on. -/
def Leads (text : List Char) : Prop :=
  ∃ word rest connector, text = word ++ rest ∧ Spells word connector ∧
    isWordBeside rest.head? = false

theorem leads_iff {text : List Char} :
    Leads text ↔ ∃ found ∈ take? text, isWordBeside found.2.2.head? = false := by
  constructor
  · rintro ⟨word, rest, connector, htext, hspells, hfree⟩
    exact ⟨(connector, word, rest), take?_eq_some_iff.2 ⟨htext, hspells⟩, hfree⟩
  · rintro ⟨⟨connector, word, rest⟩, htake, hfree⟩
    obtain ⟨htext, hspells⟩ := take?_eq_some_iff.1 htake
    exact ⟨word, rest, connector, htext, hspells, hfree⟩

instance (text : List Char) : Decidable (Leads text) :=
  decidable_of_iff _ leads_iff.symm

/-- A connector stands right behind a colon of the text, as in `:or`. -/
def BehindColon (text : List Char) : Prop :=
  ∃ front rest, text = front ++ ':' :: rest ∧ Leads rest

theorem behindColon_cons_iff {c : Char} {cs : List Char} :
    BehindColon (c :: cs) ↔ c = ':' ∧ Leads cs ∨ BehindColon cs := by
  constructor
  · rintro ⟨front, rest, htext, hleads⟩
    cases front with
    | nil =>
      obtain ⟨rfl, rfl⟩ := List.cons.inj htext
      exact .inl ⟨rfl, hleads⟩
    | cons d front => exact .inr ⟨front, rest, (List.cons.inj htext).2, hleads⟩
  · rintro (⟨rfl, hleads⟩ | ⟨front, rest, rfl, hleads⟩)
    · exact ⟨[], cs, rfl, hleads⟩
    · exact ⟨c :: front, rest, rfl, hleads⟩

instance decidableBehindColon : (text : List Char) → Decidable (BehindColon text)
  | [] => .isFalse (by rintro ⟨front, _, htext, _⟩; simp at htext)
  | _ :: cs =>
    have := decidableBehindColon cs
    decidable_of_iff _ behindColon_cons_iff.symm

theorem behindColon_of_last {front rest : List Char} (hcolon : lastFrom none front = some ':')
    (hleads : Leads rest) : BehindColon (front ++ rest) := by
  obtain rfl | ⟨init, c, rfl⟩ := front.eq_nil_or_concat'
  · cases hcolon
  · obtain rfl : c = ':' := by simpa using hcolon
    exact ⟨init, rest, by simp, hleads⟩

end Connector

theorem ConditionAt.leads {text front keyword behind rest : List Char} {span : Span}
    (hat : ConditionAt text span front keyword behind rest) :
    Leads (keyword ++ behind ++ rest) := by
  obtain ⟨connector, hspells⟩ := hat.keyword
  obtain ⟨_, _, hbehind, _⟩ := hat.behind
  refine ⟨keyword, behind ++ rest, connector, by simp, hspells, ?_⟩
  rw [hbehind]
  exact isWordChar_of_isBlank (c := ' ') rfl

theorem JoiningAt.leads {text front word rest : List Char} {span : Span}
    (hat : JoiningAt text span front word rest) : Leads (word ++ rest) := by
  obtain ⟨connector, _, hspells⟩ := hat.joining
  exact ⟨word, rest, connector, rfl, hspells, hat.free.2⟩

namespace Pruning

variable {lacks : String → Bool} {text : List Char} {done later : List Step} {step : Step}

/-- A connector leads what an edit changes. -/
theorem Sited.leads {e : Edit} (hsited : Sited text e) {front stretch rest : List Char}
    (htext : text = front ++ stretch ++ rest) (hspan : e.span = .behind front stretch) :
    Leads (stretch ++ rest) := by
  have hsame : ∀ front' stretch', text = front' ++ stretch' →
      e.span.start = byteLen front' → stretch ++ rest = stretch' := by
    intro front' stretch' htext' hstart
    rw [hspan, Span.behind_start] at hstart
    rw [htext, List.append_assoc] at htext'
    exact (append_inj_of_byteLen_eq htext' hstart).2
  cases e with
  | remove span =>
    obtain ⟨front', keyword, behind, rest', hat⟩ := hsited
    rw [hsame front' (keyword ++ behind ++ rest') (by rw [hat.text_eq]; simp)
      (congrArg Span.start hat.span_eq)]
    exact hat.leads
  | promote span =>
    obtain ⟨front', word, rest', hat⟩ := hsited
    rw [hsame front' (word ++ rest') (by rw [hat.text_eq]; simp)
      (congrArg Span.start hat.span_eq)]
    exact hat.leads

/-- An edit that disturbs a placeholder changes what a connector behind a colon leads. -/
theorem Sited.not_disturbs {e : Edit} (hsited : Sited text e) (hnone : ¬ BehindColon text) :
    ∀ p ∈ placeholders text, ¬ e.Disturbs text p := by
  obtain ⟨front, stretch, rest, htext, hat⟩ := hsited.exists_editAt
  have hlast : lastFrom none front ≠ some ':' := by
    intro hcolon
    apply hnone
    rw [htext, List.append_assoc]
    exact behindColon_of_last hcolon (hsited.leads htext hat.span_eq)
  subst htext
  refine hat.not_disturbs_iff.2 ⟨?_, fun _ hcolon => absurd hcolon hlast⟩
  rintro ⟨init, rfl, _⟩
  exact hlast (lastFrom_concat none init ':')

theorem undisturbed_of_noneBehindColon (hnone : ¬ BehindColon text) :
    Undisturbed lacks text := by
  intro e he
  obtain ⟨_, hinvariant⟩ := invariant_steps lacks text
  exact (hinvariant.sited e (mem_carriedOut_iff.1 he).1).not_disturbs hnone

/-- What is removed so far ends with the last clause removed, or with its upper bound. -/
theorem exists_remove_of_removedTo (done : List Step) :
    (progressAfter done).removedTo = 0 ∨ ∃ s ∈ done, ∃ upper?, s.decision = .remove upper? ∧
      (progressAfter done).removedTo =
        (upper?.map fun upper => upper.span.stop).getD s.clause.span.stop := by
  induction done using List.reverseRecOn with
  | nil => exact .inl rfl
  | append_singleton init last ih =>
    rw [progressAfter_concat]
    have hearlier : (progressAfter init).removedTo = 0 ∨ ∃ s ∈ init ++ [last], ∃ upper?,
        s.decision = .remove upper? ∧ (progressAfter init).removedTo =
          (upper?.map fun upper => upper.span.stop).getD s.clause.span.stop :=
      ih.imp id fun ⟨s, hs, hremoved⟩ => ⟨s, List.mem_append_left _ hs, hremoved⟩
    obtain ⟨clause, decision⟩ := last
    cases decision with
    | swallowed => exact hearlier
    | keep promoted? => exact hearlier
    | remove upper? => exact .inr ⟨⟨clause, .remove upper?⟩, by simp, upper?, rfl, rfl⟩

/-- A clause is within a removed stretch only if it begins at the name of an upper bound. -/
theorem behindColon_of_swallowed (hsteps : steps lacks text = done ++ step :: later)
    (hswallowed : step.decision = .swallowed) : BehindColon text := by
  obtain ⟨ahead, hinvariant, hdecision⟩ := exists_invariant_of_steps_eq hsteps
  have hwithin : step.clause.span.start < (progressAfter done).removedTo := by
    by_contra hbehind
    rw [hdecision, Progress.decide, if_neg hbehind] at hswallowed
    split at hswallowed <;> cases hswallowed
  obtain hzero | ⟨s, hs, upper?, hremove, hremovedTo⟩ := exists_remove_of_removedTo done
  · omega
  have hrow := pairwise_steps lacks text
  rw [hsteps] at hrow
  have hbefore := (List.pairwise_append.1 hrow).2.2 s hs step List.mem_cons_self
  rw [hremovedTo] at hwithin
  cases upper? with
  | none =>
    simp only [Option.map_none, Option.getD_none] at hwithin
    omega
  | some upper =>
    -- Only an upper bound reaches beyond the clause it belongs to, so this clause begins in one.
    obtain ⟨_, _, _, hsteps'⟩ := exists_steps_eq_of_mem hsteps hs
    obtain ⟨_, _, hdecision'⟩ := exists_invariant_of_steps_eq hsteps'
    obtain ⟨_, _, hupper⟩ := removedTo_le_of_decide_remove (hdecision'.symm.trans hremove)
    obtain ⟨front', blanks, keyword, name, rest', hlen, hupperAt⟩ :=
      UpperBound.upperBoundAt?_eq_some_iff.1 (hupper upper rfl)
    obtain ⟨front, reading, rest, hat⟩ := Clause.exists_at_of_mem_clauses hinvariant.mem_clauses
    have hfront := hat.front_eq_of_within hupperAt (hlen ▸ hbefore) hwithin
    rw [hat.conditionAt.text_eq, List.append_assoc]
    refine behindColon_of_last ?_ hat.conditionAt.leads
    rw [hfront, lastFrom_append]
    rfl

/-- Where no connector stands behind a colon, a clause is removed if its own name lacks a value, and
kept otherwise. -/
theorem removes_eq_lacks (hnone : ¬ BehindColon text) (hstep : step ∈ steps lacks text) :
    step.removes = lacks step.clause.placeholder ∧
      step.keeps = !lacks step.clause.placeholder := by
  obtain ⟨done, later, hsteps⟩ := List.append_of_mem hstep
  obtain ⟨ahead, hinvariant, hdecision⟩ := exists_invariant_of_steps_eq hsteps
  cases hcase : step.decision with
  | swallowed => exact absurd (behindColon_of_swallowed hsteps hcase) hnone
  | remove upper? =>
    obtain ⟨_, hlacks, _⟩ := removedTo_le_of_decide_remove (hdecision.symm.trans hcase)
    simp [Step.removes, Step.keeps, hcase, hlacks]
  | keep promoted? =>
    obtain ⟨_, hlacks, _⟩ := removedTo_le_of_decide_keep (hdecision.symm.trans hcase)
    simp [Step.removes, Step.keeps, hcase, hlacks]

/-- A name without a value survives only in placeholders that no clause compares with. -/
theorem exists_uncompared_of_survives (hnone : ¬ BehindColon text) {name : String}
    (hname : name ∈ survivingNames lacks text) (hlacks : lacks name = true) :
    ∃ p ∈ placeholders text, p.name = name ∧
      ∀ clause ∈ clauses text, ¬ clause.ComparesWith p := by
  obtain ⟨p, hsurvives, rfl⟩ := List.mem_map.1 hname
  obtain ⟨hp, hfree⟩ := List.mem_filter.1 hsurvives
  refine ⟨p, hp, rfl, fun clause hclause hcompares => ?_⟩
  rw [← map_clause_steps lacks text] at hclause
  obtain ⟨step, hstep, rfl⟩ := List.mem_map.1 hclause
  obtain ⟨hremoves, _⟩ := removes_eq_lacks hnone hstep
  rw [← hcompares.2, hlacks] at hremoves
  obtain ⟨upper?, hremove⟩ : ∃ upper?, step.decision = .remove upper? := by
    cases hcase : step.decision with
    | remove upper? => exact ⟨upper?, rfl⟩
    | swallowed => simp [Step.removes, hcase] at hremoves
    | keep promoted? => simp [Step.removes, hcase] at hremoves
  -- The clause is removed, and the placeholder with it.
  have hedit : .remove step.clause.span ∈ editsOf (steps lacks text) :=
    List.mem_flatMap.2 ⟨step, hstep, Step.mem_edits_iff.2 (.inl ⟨upper?, hremove, .inl rfl⟩)⟩
  have hmem : step.clause ∈ clauses text := by
    rw [← map_clause_steps lacks text]
    exact List.mem_map_of_mem hstep
  exact of_decide_eq_true hfree _ hedit ⟨rfl, Clause.start_le_of_comparesWith hmem hp hcompares,
    Nat.le_of_eq hcompares.1⟩

end Pruning

end SqlTemplate
