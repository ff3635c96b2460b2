import Mathlib.Data.List.Forall2
import SqlTemplate.Bindings
import SqlTemplate.Proofs.Clause.Placeholders
import SqlTemplate.Proofs.Pruning.Rewriting
import SqlTemplate.Proofs.Pruning.Run
import SqlTemplate.Pruning

namespace SqlTemplate

namespace Edit

def removal? : Edit → Option Span
  | remove span => some span
  | promote _ => none

def promotion? : Edit → Option Span
  | remove _ => none
  | promote span => some span

/-- The stretches that edits remove, in the order of the edits. -/
def removals (edits : List Edit) : List Span :=
  edits.filterMap removal?

/-- The stretches that edits promote, in the order of the edits. -/
def promotions (edits : List Edit) : List Span :=
  edits.filterMap promotion?

section Append

variable (span : Span) (edits edits' : List Edit)

@[simp]
theorem removals_nil : removals [] = [] := rfl

@[simp]
theorem promotions_nil : promotions [] = [] := rfl

@[simp]
theorem removals_remove_cons : removals (.remove span :: edits) = span :: removals edits := rfl

@[simp]
theorem removals_promote_cons : removals (.promote span :: edits) = removals edits := rfl

@[simp]
theorem promotions_remove_cons : promotions (.remove span :: edits) = promotions edits := rfl

@[simp]
theorem promotions_promote_cons : promotions (.promote span :: edits) = span :: promotions edits :=
  rfl

theorem removals_append : removals (edits ++ edits') = removals edits ++ removals edits' :=
  List.filterMap_append

theorem promotions_append :
    promotions (edits ++ edits') = promotions edits ++ promotions edits' :=
  List.filterMap_append

end Append

theorem mem_removals_iff {edits : List Edit} {span : Span} :
    span ∈ removals edits ↔ .remove span ∈ edits := by
  rw [removals, List.mem_filterMap]
  constructor
  · rintro ⟨e, he, hspan⟩
    cases e with
    | remove span' =>
      obtain rfl := Option.some.inj hspan
      exact he
    | promote span' => cases hspan
  · exact fun hmem => ⟨_, hmem, rfl⟩

theorem mem_promotions_iff {edits : List Edit} {span : Span} :
    span ∈ promotions edits ↔ .promote span ∈ edits := by
  rw [promotions, List.mem_filterMap]
  constructor
  · rintro ⟨e, he, hspan⟩
    cases e with
    | remove span' => cases hspan
    | promote span' =>
      obtain rfl := Option.some.inj hspan
      exact he
  · exact fun hmem => ⟨_, hmem, rfl⟩

/-- Compatible promotions keep apart. -/
theorem pairwise_promotions {edits : List Edit} (hcompatible : edits.Pairwise Compatible) :
    (promotions edits).Pairwise fun s t => s.overlaps t = false := by
  refine List.Pairwise.filterMap _ ?_ hcompatible
  intro e f hboth s hs t ht
  cases e with
  | remove span => cases hs
  | promote span =>
    cases f with
    | remove span' => cases ht
    | promote span' =>
      obtain rfl := Option.some.inj hs
      obtain rfl := Option.some.inj ht
      obtain hapart | htaken | htaken := hboth
      · exact hapart
      · cases htaken.2.1
      · cases htaken.2.1

/-- A compatible promotion keeps apart from all removals, or one of them takes it with it. -/
theorem apart_or_within_of_mem_promotions {edits : List Edit}
    (hcompatible : edits.Pairwise Compatible) {span : Span} (hspan : span ∈ promotions edits) :
    (∀ removed ∈ removals edits, span.overlaps removed = false) ∨
      ∃ removed ∈ removals edits, removed.start ≤ span.start ∧ span.stop ≤ removed.stop := by
  have hsymm : Std.Symm Compatible := ⟨fun _ _ hboth => hboth.symm⟩
  by_cases hwithin :
      ∃ removed ∈ removals edits, removed.start ≤ span.start ∧ span.stop ≤ removed.stop
  · exact .inr hwithin
  · refine .inl fun removed hremoved => ?_
    have hne : Edit.promote span ≠ .remove removed := nofun
    obtain hapart | htaken | htaken := hcompatible.forall (mem_promotions_iff.1 hspan)
      (mem_removals_iff.1 hremoved) hne
    · exact hapart
    · exact absurd ⟨removed, hremoved, htaken.2.2⟩ hwithin
    · cases htaken.1

end Edit

/-- The span covers a part of the text that ends in a placeholder of this name. -/
def Span.EndsIn (text : List Char) (span : Span) (name : String) : Prop :=
  ∃ before, span.slice? text = some (before ++ ':' :: name.toList)

theorem Clause.endsIn_of_mem_clauses {text : List Char} {clause : Clause}
    (hclause : clause ∈ clauses text) : clause.span.EndsIn text clause.placeholder := by
  obtain ⟨front, head, name, rest, htext, hspan, hplaceholder, _⟩ :=
    exists_colon_of_mem_clauses hclause
  refine ⟨head, Span.slice?_eq_some_iff.2 ⟨front, rest, ?_, ?_⟩⟩
  · rw [hplaceholder, String.toList_ofList, htext]
  · rw [hplaceholder, String.toList_ofList, hspan]

theorem UpperBound.endsIn_of_upperBoundAt? {text : List Char} {offset : Nat} {upper : UpperBound}
    (hupper : upperBoundAt? text offset = some upper) :
    upper.span.EndsIn text upper.placeholder := by
  obtain ⟨front, blanks, keyword, name, rest, _, hat⟩ := upperBoundAt?_eq_some_iff.1 hupper
  refine ⟨keyword ++ [' '], Span.slice?_eq_some_iff.2 ⟨front ++ blanks, rest, ?_, ?_⟩⟩
  · rw [hat.text_eq, hat.placeholder_eq]
    simp
  · rw [hat.span_eq, hat.placeholder_eq]
    simp

namespace Pruning

variable {lacks : String → Bool} {text : List Char} {done : List Step} {clause : Clause}
  {ahead : List Clause}

theorem Sited.liesIn {e : Edit} (hsited : Sited text e) : e.span.LiesIn text := by
  cases e with
  | remove span =>
    obtain ⟨front, keyword, behind, rest, hat⟩ := hsited
    obtain ⟨_, _, hbehind, _⟩ := hat.behind
    exact ⟨front, keyword ++ behind, rest, hat.text_eq, hat.span_eq, by simp [hbehind]⟩
  | promote span =>
    obtain ⟨front, word, rest, hat⟩ := hsited
    exact ⟨front, word, rest, hat.text_eq, hat.span_eq, hat.word_ne_nil⟩

/-- The edits that pruning carries out, laid in the template, make what is then trimmed. -/
theorem exists_laid_removing (lacks : String → Bool) (template : String) :
    ∃ result, Edit.Laid [] (carriedOut lacks template.toList) template.toList result ∧
      (Pruned.removing lacks template).sql = String.ofList (trim result) := by
  obtain ⟨_, hinvariant⟩ := invariant_steps lacks template.toList
  obtain ⟨result, hlaid⟩ :=
    Edit.exists_laid_carriedOut fun e he => (hinvariant.sited e he).liesIn
  have hcopy : Edit.copy (carriedOut lacks template.toList) 0 template.toList = result :=
    hlaid.copy_eq
  refine ⟨result, hlaid, ?_⟩
  rw [← hcopy, carriedOut, Edit.copy_carriedOut]
  rfl

/-- The names that a step prunes are those that its removals end in. -/
theorem forall₂_prunedNames (progress : Progress) (hclause : clause ∈ clauses text) :
    List.Forall₂ (Span.EndsIn text)
      (Edit.removals (Step.edits ⟨clause, progress.decide lacks text clause⟩))
      (Step.prunedNames ⟨clause, progress.decide lacks text clause⟩) := by
  cases hdecide : progress.decide lacks text clause with
  | swallowed => exact .nil
  | keep promoted? => cases promoted? <;> exact .nil
  | remove upper? =>
    obtain ⟨_, _, hupper⟩ := removedTo_le_of_decide_remove hdecide
    have hends := Clause.endsIn_of_mem_clauses hclause
    cases upper? with
    | none => exact .cons hends .nil
    | some upper =>
      exact .cons hends (.cons (UpperBound.endsIn_of_upperBoundAt? (hupper upper rfl)) .nil)

namespace Invariant

/-- A step removes its clause in front of the upper bound. -/
theorem pairwise_removals (hinvariant : Invariant text done (clause :: ahead)) :
    (Edit.removals (Step.edits ⟨clause, (progressAfter done).decide lacks text clause⟩)).Pairwise
      fun s t => s.stop ≤ t.start := by
  cases hdecide : (progressAfter done).decide lacks text clause with
  | swallowed => exact .nil
  | keep promoted? => cases promoted? <;> exact .nil
  | remove upper? =>
    cases upper? with
    | none => exact List.pairwise_singleton _ _
    | some upper =>
      obtain ⟨_, _, hupper⟩ := removedTo_le_of_decide_remove hdecide
      obtain ⟨hafter, _⟩ :=
        UpperBound.exists_conditionAt_of_mem_clauses hinvariant.mem_clauses (hupper upper rfl)
      exact List.pairwise_pair.2 hafter

end Invariant

namespace Reaches

/-- The removals of a run follow one another. -/
theorem pairwise_removals (hreaches : Reaches lacks text done ahead) :
    (Edit.removals (editsOf done)).Pairwise fun s t => s.stop ≤ t.start := by
  induction hreaches with
  | start => exact .nil
  | @step done clause ahead hreaches ih =>
    have hinvariant := hreaches.invariant
    rw [editsOf_append, editsOf_singleton, Edit.removals_append]
    refine List.pairwise_append.2 ⟨ih, hinvariant.pairwise_removals, fun s hs t ht => ?_⟩
    have hstop := hinvariant.removed _ (Edit.mem_removals_iff.1 hs) rfl
    have hstart := ((hinvariant.mem_edits (Edit.mem_removals_iff.1 ht)).2.1 rfl).1
    exact Nat.le_trans hstop hstart

/-- The names that a run prunes are those that its removals end in. -/
theorem forall₂_prunedNames (hreaches : Reaches lacks text done ahead) :
    List.Forall₂ (Span.EndsIn text) (Edit.removals (editsOf done))
      (done.flatMap Step.prunedNames) := by
  induction hreaches with
  | start => exact .nil
  | @step done clause ahead hreaches ih =>
    rw [editsOf_append, editsOf_singleton, Edit.removals_append, List.flatMap_append,
      List.flatMap_singleton]
    exact List.rel_append ih
      (Pruning.forall₂_prunedNames (progressAfter done) hreaches.invariant.mem_clauses)

end Reaches

end Pruning

/-- Edits as a pass over a text records them, beside the names that it prunes: removals one after
the other, each ending in a placeholder whose name is pruned, and promotions that keep out of the
way of all other edits or go with a removal. -/
structure Recorded (text : List Char) (edits : List Edit) (names : List String) : Prop where
  /-- Every edit changes some of the text, between two positions that cut no character. -/
  liesIn : ∀ e ∈ edits, e.span.start < e.span.stop ∧ (e.span.slice? text).isSome
  /-- The removals follow one another. -/
  removals : (Edit.removals edits).Pairwise fun s t => s.stop ≤ t.start
  /-- There is one removal for each name, which it ends in. -/
  names : List.Forall₂ (Span.EndsIn text) (Edit.removals edits) names
  /-- The promotions keep apart from one another. -/
  promotions : (Edit.promotions edits).Pairwise fun s t => s.overlaps t = false
  /-- A promotion keeps apart from all removals, or lies within one. -/
  apart_or_within : ∀ promoted ∈ Edit.promotions edits,
    (∀ removed ∈ Edit.removals edits, promoted.overlaps removed = false) ∨
      ∃ removed ∈ Edit.removals edits,
        removed.start ≤ promoted.start ∧ promoted.stop ≤ removed.stop

theorem Pruning.recorded_steps (lacks : String → Bool) (text : List Char) :
    Recorded text (editsOf (steps lacks text)) ((steps lacks text).flatMap Step.prunedNames) := by
  obtain ⟨_, hreaches, _⟩ := reaches_of_steps_eq (List.append_nil (steps lacks text)).symm
  have hinvariant := hreaches.invariant
  exact {
    liesIn := fun e he => Span.liesIn_iff.1 (hinvariant.sited e he).liesIn
    removals := hreaches.pairwise_removals
    names := hreaches.forall₂_prunedNames
    promotions := Edit.pairwise_promotions hinvariant.compatible
    apart_or_within := fun _ hspan =>
      Edit.apart_or_within_of_mem_promotions hinvariant.compatible hspan }

/-- Pruning records its edits in order and out of one another's way, copies stretches of the
template that are there, and so makes the template written anew: without what is removed, with
`WHERE` in place of what is promoted and not removed, and with every other character once and in
order. -/
theorem prune_eq_rewrite (template : String) (bindings : Bindings) :
    let text := template.toList
    let edits := Pruning.editsOf (Pruning.steps bindings.lacks text)
    let pruned := prune false bindings.lacks template
    Recorded text edits pruned.names ∧
      Edit.copyStretches? text (Edit.sort edits) 0 = some (Edit.applyAll edits text) ∧
      pruned.sql = String.ofList (trim (Edit.rewrite (Edit.effective edits) 0 text)) := by
  intro text edits pruned
  obtain ⟨_, hinvariant⟩ := Pruning.invariant_steps bindings.lacks text
  have hspans : ∀ e ∈ edits, e.span.LiesIn text := fun e he => (hinvariant.sited e he).liesIn
  refine ⟨Pruning.recorded_steps bindings.lacks text, Edit.copyStretches?_sort hspans, ?_⟩
  rw [← Edit.applyAll_eq_rewrite hspans hinvariant.compatible]
  rfl

end SqlTemplate
