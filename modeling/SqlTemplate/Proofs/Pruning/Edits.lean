import Mathlib.Data.List.Pairwise
import Mathlib.Tactic.ByContra
import SqlTemplate.Proofs.Text.Place
import SqlTemplate.Pruning.Edit

namespace SqlTemplate.Edit

section Order

theorem mayPrecede_iff {e f : Edit} :
    e.mayPrecede f ↔ e.span.start < f.span.start ∨
      e.span.start = f.span.start ∧ (e.isPromotion → f.isPromotion) := by
  cases hpromotes : e.isPromotion <;> simp [mayPrecede, hpromotes]

theorem mayPrecede_of_not {e f : Edit} (hnot : ¬ e.mayPrecede f) : f.mayPrecede e := by
  rw [mayPrecede_iff] at hnot ⊢
  by_cases hsame : e.span.start = f.span.start
  · refine .inr ⟨hsame.symm, fun hpromotes => ?_⟩
    by_contra hplain
    exact hnot (.inr ⟨hsame, fun h => absurd h hplain⟩)
  · omega

theorem mayPrecede_trans {e f g : Edit} (hef : e.mayPrecede f) (hfg : f.mayPrecede g) :
    e.mayPrecede g := by
  rw [mayPrecede_iff] at hef hfg ⊢
  obtain hlt | ⟨heq, hpromotes⟩ := hef
  · omega
  · obtain hlt' | ⟨heq', hpromotes'⟩ := hfg
    · omega
    · exact .inr ⟨heq.trans heq', fun h => hpromotes' (hpromotes h)⟩

theorem pairwise_insert {e : Edit} {edits : List Edit}
    (hsorted : edits.Pairwise fun f g => f.mayPrecede g) :
    (insert e edits).Pairwise fun f g => f.mayPrecede g := by
  induction edits with
  | nil => simp [insert]
  | cons f rest ih =>
    obtain ⟨hfirst, hrest⟩ := List.pairwise_cons.1 hsorted
    unfold insert
    split
    · next hprecedes =>
      refine List.pairwise_cons.2 ⟨fun g hg => ?_, hsorted⟩
      obtain rfl | hg := List.mem_cons.1 hg
      · exact hprecedes
      · exact mayPrecede_trans hprecedes (hfirst g hg)
    · next hnot =>
      refine List.pairwise_cons.2 ⟨fun g hg => ?_, ih hrest⟩
      obtain rfl | hg := List.mem_cons.1 ((insert_perm e rest).mem_iff.1 hg)
      · exact mayPrecede_of_not hnot
      · exact hfirst g hg

theorem pairwise_sort (edits : List Edit) :
    (sort edits).Pairwise fun e f => e.mayPrecede f := by
  induction edits with
  | nil => exact .nil
  | cons e rest ih => exact pairwise_insert ih

/-- A row of edits is the only order in which they can be sorted. -/
theorem sort_eq_of_perm {edits row : List Edit} (hperm : edits.Perm row)
    (hnonempty : ∀ e ∈ row, e.span.start < e.span.stop)
    (hrow : row.Pairwise fun e f => e.span.stop ≤ f.span.start) : sort edits = row := by
  have hsorted : row.Pairwise fun e f => e.mayPrecede f := by
    refine hrow.imp_of_mem fun {e f} he _ hle => mayPrecede_iff.2 (.inl ?_)
    have hspan := hnonempty e he
    omega
  have hsymm : Std.Symm fun e f : Edit =>
      e.span.stop ≤ f.span.start ∨ f.span.stop ≤ e.span.start := ⟨fun _ _ h => h.symm⟩
  have happart : row.Pairwise fun e f =>
      e.span.stop ≤ f.span.start ∨ f.span.stop ≤ e.span.start := hrow.imp Or.inl
  refine List.Perm.eq_of_pairwise ?_ (pairwise_sort edits) hsorted ((sort_perm edits).trans hperm)
  intro e f he hf hef hfe
  have he' : e ∈ row := ((sort_perm edits).trans hperm).mem_iff.1 he
  have hspan := hnonempty e he'
  have hspan' := hnonempty f hf
  rw [mayPrecede_iff] at hef hfe
  by_contra hne
  have hdisjoint := happart.forall he' hf hne
  omega

end Order

section CarriedOut

/-- The edits, of those in a sorted list, that a copy from byte `position` on does not pass over. -/
def carriedOut : Nat → List Edit → List Edit
  | _, [] => []
  | position, e :: rest =>
    if e.span.start < position then carriedOut position rest else e :: carriedOut e.span.stop rest

theorem copy_carriedOut (position : Nat) (edits : List Edit) (text : List Char) :
    copy (carriedOut position edits) position text = copy edits position text := by
  induction edits generalizing position text with
  | nil => rfl
  | cons e rest ih =>
    by_cases hpassed : e.span.start < position
    · simp [carriedOut, copy, hpassed, ih]
    · simp [carriedOut, copy, hpassed, ih]

theorem carriedOut_sublist (position : Nat) (edits : List Edit) :
    (carriedOut position edits).Sublist edits := by
  induction edits generalizing position with
  | nil => exact .slnil
  | cons e rest ih =>
    unfold carriedOut
    split
    · exact (ih position).cons e
    · exact (ih e.span.stop).cons_cons e

theorem mem_of_mem_carriedOut {position : Nat} {edits : List Edit} {e : Edit}
    (hmem : e ∈ carriedOut position edits) : e ∈ edits :=
  (carriedOut_sublist position edits).subset hmem

/-- What is carried out stands in a row. -/
theorem pairwise_carriedOut {position : Nat} {edits : List Edit}
    (hspans : ∀ e ∈ edits, e.span.start ≤ e.span.stop) :
    (∀ e ∈ carriedOut position edits, position ≤ e.span.start) ∧
      (carriedOut position edits).Pairwise fun e f => e.span.stop ≤ f.span.start := by
  induction edits generalizing position with
  | nil => simp [carriedOut]
  | cons e rest ih =>
    have hrest := fun f hf => hspans f (List.mem_cons_of_mem e hf)
    unfold carriedOut
    split
    · exact ih hrest
    · next hbehind =>
      obtain ⟨hlater, hrow⟩ := @ih e.span.stop hrest
      refine ⟨fun f hf => ?_, List.pairwise_cons.2 ⟨hlater, hrow⟩⟩
      obtain rfl | hf := List.mem_cons.1 hf
      · omega
      · have hspan := hspans e List.mem_cons_self
        have hle := hlater f hf
        omega

/-- A promotion of a connector that a removal takes with it. -/
def TakenBy (e f : Edit) : Prop :=
  e.isPromotion = true ∧ f.isPromotion = false ∧
    f.span.start ≤ e.span.start ∧ e.span.stop ≤ f.span.stop

theorem not_takenBy_self (e : Edit) : ¬ e.TakenBy e := by
  rintro ⟨hpromotes, hplain, _⟩
  rw [hpromotes] at hplain
  cases hplain

/-- No removal is taken with the edit in front of it. -/
theorem stop_le_start_of_removal {e f : Edit}
    (hrow : e.span.stop ≤ f.span.start ∨ f.TakenBy e) (hplain : f.isPromotion = false) :
    e.span.stop ≤ f.span.start := by
  obtain hle | htaken := hrow
  · exact hle
  · rw [htaken.1] at hplain
    cases hplain

/-- Edits that can be made to one text: they change different stretches, or one of them removes the
connector that the other would promote. -/
def Compatible (e f : Edit) : Prop :=
  e.span.overlaps f.span = false ∨ e.TakenBy f ∨ f.TakenBy e

theorem Compatible.symm {e f : Edit} (hcompatible : e.Compatible f) : f.Compatible e := by
  obtain hapart | htaken | htaken := hcompatible
  · exact .inl (by rw [Span.overlaps_comm]; exact hapart)
  · exact .inr (.inr htaken)
  · exact .inr (.inl htaken)

/-- Of two compatible edits in order, the first ends before the second begins, or takes it with
it. -/
theorem Compatible.stop_le_start_or_takenBy {e f : Edit} (hcompatible : e.Compatible f)
    (hprecedes : e.mayPrecede f) (hnonempty : f.span.start < f.span.stop) :
    e.span.stop ≤ f.span.start ∨ f.TakenBy e := by
  rw [mayPrecede_iff] at hprecedes
  obtain hapart | ⟨hpromotes, hplain, hstart, _⟩ | htaken := hcompatible
  · refine .inl ?_
    by_contra hover
    have hoverlaps := Span.overlaps_iff.2 (⟨by omega, by omega⟩ :
      e.span.start < f.span.stop ∧ f.span.start < e.span.stop)
    rw [hapart] at hoverlaps
    cases hoverlaps
  · obtain hlt | ⟨_, hboth⟩ := hprecedes
    · omega
    · rw [hboth hpromotes] at hplain
      cases hplain
  · exact .inr htaken

/-- In a sorted list of compatible edits everything is carried out but what is taken with a
removal. -/
theorem mem_carriedOut_iff {position : Nat} {edits : List Edit} {e : Edit}
    (hnonempty : ∀ f ∈ edits, f.span.start < f.span.stop)
    (hrow : edits.Pairwise fun f g => f.span.stop ≤ g.span.start ∨ g.TakenBy f)
    (hpassed : ∀ f ∈ edits, f.isPromotion = false → position ≤ f.span.start) :
    e ∈ carriedOut position edits ↔
      e ∈ edits ∧ position ≤ e.span.start ∧ ∀ f ∈ edits, ¬ e.TakenBy f := by
  induction edits generalizing position with
  | nil => simp [carriedOut]
  | cons g rest ih =>
    obtain ⟨hfirst, hrest⟩ := List.pairwise_cons.1 hrow
    have hspan := hnonempty g List.mem_cons_self
    have hspans := fun f hf => hnonempty f (List.mem_cons_of_mem g hf)
    unfold carriedOut
    split
    · next hover =>
      have hpromotes : g.isPromotion = true := by
        by_contra hplain
        have hle := hpassed g List.mem_cons_self (by simpa using hplain)
        omega
      rw [ih hspans hrest fun f hf => hpassed f (List.mem_cons_of_mem g hf)]
      constructor
      · rintro ⟨hmem, hle, hfree⟩
        refine ⟨List.mem_cons_of_mem g hmem, hle, fun f hf htaken => ?_⟩
        obtain rfl | hf := List.mem_cons.1 hf
        · rw [htaken.2.1] at hpromotes
          cases hpromotes
        · exact hfree f hf htaken
      · rintro ⟨hmem, hle, hfree⟩
        obtain rfl | hmem := List.mem_cons.1 hmem
        · omega
        · exact ⟨hmem, hle, fun f hf => hfree f (List.mem_cons_of_mem g hf)⟩
    · next hbehind =>
      have hlater : ∀ f ∈ rest, f.isPromotion = false → g.span.stop ≤ f.span.start :=
        fun f hf => stop_le_start_of_removal (hfirst f hf)
      rw [List.mem_cons, ih hspans hrest hlater]
      constructor
      · rintro (rfl | ⟨hmem, hle, hfree⟩)
        · refine ⟨List.mem_cons_self, by omega, fun f hf htaken => ?_⟩
          obtain rfl | hf := List.mem_cons.1 hf
          · exact not_takenBy_self _ htaken
          · have hle := hlater f hf htaken.2.1
            have hstart := htaken.2.2.1
            omega
        · refine ⟨List.mem_cons_of_mem g hmem, by omega, fun f hf htaken => ?_⟩
          obtain rfl | hf := List.mem_cons.1 hf
          · have hspan' := hspans e hmem
            have hstop := htaken.2.2.2
            omega
          · exact hfree f hf htaken
      · rintro ⟨hmem, hle, hfree⟩
        obtain rfl | hmem := List.mem_cons.1 hmem
        · exact .inl rfl
        · refine .inr ⟨hmem, ?_, fun f hf => hfree f (List.mem_cons_of_mem g hf)⟩
          obtain hle' | htaken := hfirst e hmem
          · exact hle'
          · exact absurd htaken (hfree g List.mem_cons_self)

/-- Compatible edits are sorted into a row, but for what is taken with a removal. -/
theorem pairwise_sort_of_compatible {edits : List Edit}
    (hnonempty : ∀ f ∈ edits, f.span.start < f.span.stop)
    (hcompatible : edits.Pairwise Compatible) :
    (sort edits).Pairwise fun f g => f.span.stop ≤ g.span.start ∨ g.TakenBy f := by
  have hsorted : (sort edits).Pairwise Compatible :=
    (sort_perm edits).symm.pairwise hcompatible Compatible.symm
  refine (hsorted.and (pairwise_sort edits)).imp_of_mem ?_
  rintro f g _ hg ⟨hboth, hprecedes⟩
  have hspan := hnonempty g ((sort_perm edits).mem_iff.1 hg)
  exact hboth.stop_le_start_or_takenBy hprecedes hspan

/-- Compatible edits are all carried out, but for the promotions of connectors that a removal takes
with it. -/
theorem mem_carriedOut_sort_iff {edits : List Edit} {e : Edit}
    (hnonempty : ∀ f ∈ edits, f.span.start < f.span.stop)
    (hcompatible : edits.Pairwise Compatible) :
    e ∈ carriedOut 0 (sort edits) ↔ e ∈ edits ∧ ∀ f ∈ edits, ¬ e.TakenBy f := by
  have hmem : ∀ f, f ∈ sort edits ↔ f ∈ edits := fun f => (sort_perm edits).mem_iff
  have hrow := pairwise_sort_of_compatible hnonempty hcompatible
  rw [mem_carriedOut_iff (fun f hf => hnonempty f ((hmem f).1 hf)) hrow
    (fun f _ _ => Nat.zero_le _)]
  simp [hmem]

/-- In a row everything is carried out. -/
theorem carriedOut_eq_self {position : Nat} {edits : List Edit}
    (hbehind : ∀ e ∈ edits, position ≤ e.span.start)
    (hrow : edits.Pairwise fun e f => e.span.stop ≤ f.span.start) :
    carriedOut position edits = edits := by
  induction edits generalizing position with
  | nil => rfl
  | cons e rest ih =>
    obtain ⟨hfirst, hrest⟩ := List.pairwise_cons.1 hrow
    have hstart : ¬ e.span.start < position := Nat.not_lt_of_le (hbehind e List.mem_cons_self)
    rw [carriedOut, if_neg hstart, ih hfirst hrest]

end CarriedOut

section Copy

/-- What stands in front of all edits is kept. -/
theorem copy_append {edits : List Edit} {front : List Char} (kept rest : List Char)
    (hbehind : ∀ e ∈ edits, byteLen (front ++ kept) ≤ e.span.start) :
    copy edits (byteLen front) (kept ++ rest) =
      kept ++ copy edits (byteLen (front ++ kept)) rest := by
  cases edits with
  | nil => rfl
  | cons e edits =>
    have hstart := hbehind e List.mem_cons_self
    have hnot : ¬ e.span.start < byteLen (front ++ kept) := Nat.not_lt_of_le hstart
    rw [byteLen_append] at hstart
    have hnot' : ¬ e.span.start < byteLen front := by omega
    have hdistance : e.span.start - byteLen front =
        byteLen kept + (e.span.start - byteLen (front ++ kept)) := by
      rw [byteLen_append]
      omega
    simp only [copy, hnot, hnot', if_false, hdistance, splitAtByte_byteLen_add, List.append_assoc]

/-- The stretch of an edit is replaced. -/
theorem copy_cons {e : Edit} {edits : List Edit} {front stretch : List Char} (rest : List Char)
    (hspan : e.span = .behind front stretch) :
    copy (e :: edits) (byteLen front) (stretch ++ rest) =
      e.replacement ++ copy edits (byteLen (front ++ stretch)) rest := by
  have hstop : byteLen front + byteLen stretch - byteLen front = byteLen stretch := by omega
  have hnil : splitAtByte 0 (stretch ++ rest) = ([], stretch ++ rest) :=
    splitAtByte_append [] (stretch ++ rest)
  simp only [copy, hspan, Span.behind_start, Span.behind_stop, Nat.lt_irrefl, if_false,
    Nat.sub_self, hnil, hstop, splitAtByte_append, byteLen_append, List.nil_append]

end Copy

end SqlTemplate.Edit
