import SqlTemplate.Proofs.Pruning.Record

namespace SqlTemplate.Edit

/-- Edits of one text that do not get in one another's way. -/
structure FitTogether (text : List Char) (edits : List Edit) : Prop where
  /-- Every edit changes some of the text, between two positions that cut no character. -/
  liesIn : ∀ e ∈ edits, e.span.start < e.span.stop ∧ (e.span.slice? text).isSome
  /-- The removals keep apart from one another. -/
  removals : (removals edits).Pairwise fun s t => s.overlaps t = false
  /-- The promotions keep apart from one another. -/
  promotions : (promotions edits).Pairwise fun s t => s.overlaps t = false
  /-- A promotion keeps apart from a removal, or lies within it. -/
  apart_or_within : ∀ promoted ∈ Edit.promotions edits, ∀ removed ∈ Edit.removals edits,
    promoted.overlaps removed = false ∨
      removed.start ≤ promoted.start ∧ promoted.stop ≤ removed.stop

variable {text : List Char} {edits edits' : List Edit}

/-- Edits are compatible if those of each kind keep apart and no promotion reaches out of a
removal. -/
theorem pairwise_compatible (hremovals : (removals edits).Pairwise fun s t => s.overlaps t = false)
    (hpromotions : (promotions edits).Pairwise fun s t => s.overlaps t = false)
    (hboth : ∀ promoted ∈ promotions edits, ∀ removed ∈ removals edits,
      promoted.overlaps removed = false ∨
        removed.start ≤ promoted.start ∧ promoted.stop ≤ removed.stop) :
    edits.Pairwise Compatible := by
  induction edits with
  | nil => exact .nil
  | cons e rest ih =>
    cases e with
    | remove span =>
      rw [removals_remove_cons] at hremovals hboth
      rw [promotions_remove_cons] at hpromotions hboth
      obtain ⟨hfirst, hremovals⟩ := List.pairwise_cons.1 hremovals
      refine List.pairwise_cons.2 ⟨fun f hf => ?_, ih hremovals hpromotions ?_⟩
      · cases f with
        | remove span' => exact .inl (hfirst span' (mem_removals_iff.2 hf))
        | promote span' =>
          obtain hapart | hwithin := hboth span' (mem_promotions_iff.2 hf) span List.mem_cons_self
          · exact Compatible.symm (.inl hapart)
          · exact .inr (.inr ⟨rfl, rfl, hwithin⟩)
      · exact fun p hp r hr => hboth p hp r (List.mem_cons_of_mem span hr)
    | promote span =>
      rw [removals_promote_cons] at hremovals hboth
      rw [promotions_promote_cons] at hpromotions hboth
      obtain ⟨hfirst, hpromotions⟩ := List.pairwise_cons.1 hpromotions
      refine List.pairwise_cons.2 ⟨fun f hf => ?_, ih hremovals hpromotions ?_⟩
      · cases f with
        | promote span' => exact .inl (hfirst span' (mem_promotions_iff.2 hf))
        | remove span' =>
          obtain hapart | hwithin := hboth span List.mem_cons_self span' (mem_removals_iff.2 hf)
          · exact .inl hapart
          · exact .inr (.inl ⟨rfl, rfl, hwithin⟩)
      · exact fun p hp r hr => hboth p (List.mem_cons_of_mem span hp) r hr

theorem FitTogether.compatible (hfit : FitTogether text edits) : edits.Pairwise Compatible :=
  pairwise_compatible hfit.removals hfit.promotions hfit.apart_or_within

/-- Which promotions a removal takes with it does not depend on the order of the edits. -/
theorem mem_effective_of_perm (hperm : edits.Perm edits') (e : Edit) :
    e ∈ effective edits' ↔ e ∈ effective edits := by
  rw [mem_effective_iff, mem_effective_iff]
  simp only [hperm.mem_iff]

/-- Edits that fit together can be carried out in whatever order they are given, every stretch that
is copied is there, and what comes of it is the text written anew. -/
theorem applyAll_of_perm (hfit : FitTogether text edits) (hperm : edits.Perm edits') :
    copyStretches? text (sort edits') 0 = some (applyAll edits' text) ∧
      applyAll edits' text = rewrite (effective edits) 0 text := by
  have hspans : ∀ e ∈ edits', e.span.LiesIn text := by
    intro e he
    exact Span.liesIn_iff.2 (hfit.liesIn e (hperm.mem_iff.2 he))
  have hcompatible : edits'.Pairwise Compatible :=
    hperm.pairwise hfit.compatible Compatible.symm
  refine ⟨copyStretches?_sort hspans, ?_⟩
  rw [applyAll_eq_rewrite hspans hcompatible, rewrite_congr (mem_effective_of_perm hperm)]

/-- A removal that takes the connector at its start with it, and another connector that is
promoted, the other way round. -/
theorem applyAll_of_perm_reversed :
    let text := "é AND y OR z".toList
    let edits : List Edit := [.promote ⟨3, 6⟩, .promote ⟨9, 11⟩, .remove ⟨3, 8⟩]
    let edits' : List Edit := [.remove ⟨3, 8⟩, .promote ⟨9, 11⟩, .promote ⟨3, 6⟩]
    (FitTogether text edits ∧ edits.Perm edits') ∧
      (copyStretches? text (sort edits') 0 = some (applyAll edits' text) ∧
        applyAll edits' text = rewrite (effective edits) 0 text) ∧
      applyAll edits' text = "é  WHERE z".toList := by
  intro text edits edits'
  have hfit : FitTogether text edits := by
    constructor <;> decide +kernel
  have hperm : edits.Perm edits' := by decide +kernel
  exact ⟨⟨hfit, hperm⟩, applyAll_of_perm hfit hperm, by decide +kernel⟩

end SqlTemplate.Edit
