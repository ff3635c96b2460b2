import Mathlib.Algebra.GroupWithZero.Nat
import SqlTemplate.Proofs.Pruning.Record
import SqlTemplate.Proofs.Pruning.Script
import SqlTemplate.Proofs.Text.Trim

namespace SqlTemplate

/-- The number of bytes in a span. -/
def Span.length (span : Span) : Nat :=
  span.stop - span.start

@[simp]
theorem Span.length_behind (front stretch : List Char) :
    (behind front stretch).length = byteLen stretch := by
  simp [length]

namespace Edit

/-- Where edits are laid in a text, it loses the bytes that they remove and gains five for each
promotion at most. -/
theorem Laid.byteLen_le {front rest result : List Char} {row : List Edit}
    (hlaid : Laid front row rest result) :
    byteLen result + ((removals row).map Span.length).sum ≤
      byteLen rest + 5 * (promotions row).length := by
  induction hlaid with
  | nil front rest => exact Nat.le_refl _
  | @cons front kept stretch rest result e row hspan _ _ ih =>
    simp only [byteLen_append]
    cases e with
    | remove span =>
      obtain rfl : span = .behind (front ++ kept) stretch := hspan
      have hreplacement : byteLen (replacement (.remove (.behind (front ++ kept) stretch))) = 0 :=
        rfl
      rw [hreplacement, removals_remove_cons, promotions_remove_cons, List.map_cons, List.sum_cons,
        Span.length_behind]
      omega
    | promote span =>
      have hreplacement : byteLen (replacement (.promote span)) = 5 := rfl
      rw [hreplacement, removals_promote_cons, promotions_promote_cons, List.length_cons]
      omega

/-- What follows the text in which edits are laid stays. -/
theorem Laid.append {front rest result : List Char} {row : List Edit}
    (hlaid : Laid front row rest result) (after : List Char) :
    Laid front row (rest ++ after) (result ++ after) := by
  induction hlaid with
  | nil front rest => exact .nil front (rest ++ after)
  | @cons front kept stretch rest result e row hspan hne _ ih =>
    simpa using Laid.cons hspan hne ih

/-- In a sorted list no removal is passed over. -/
theorem removals_carriedOut {position : Nat} {edits : List Edit}
    (hrow : edits.Pairwise fun e f => e.span.stop ≤ f.span.start ∨ f.TakenBy e)
    (hahead : ∀ e ∈ edits, e.isPromotion = false → position ≤ e.span.start) :
    removals (carriedOut position edits) = removals edits := by
  induction edits generalizing position with
  | nil => rfl
  | cons e rest ih =>
    obtain ⟨hfirst, hrest⟩ := List.pairwise_cons.1 hrow
    unfold carriedOut
    split
    · next hpassed =>
      cases e with
      | remove span => exact absurd (hahead _ List.mem_cons_self rfl) (Nat.not_le_of_lt hpassed)
      | promote span => exact ih hrest fun f hf => hahead f (List.mem_cons_of_mem _ hf)
    · have hlater : ∀ f ∈ rest, f.isPromotion = false → e.span.stop ≤ f.span.start :=
        fun f hf => stop_le_start_of_removal (hfirst f hf)
      cases e with
      | remove span => rw [removals_remove_cons, removals_remove_cons, ih hrest hlater]
      | promote span => rw [removals_promote_cons, removals_promote_cons, ih hrest hlater]

end Edit

namespace EditAt

variable {e : Edit} {front stretch rest : List Char}

/-- No edit begins among the blanks in front of a text. -/
theorem le_start_of_blanks {before later : List Char} (hat : EditAt e front stretch rest)
    (htext : before ++ later = front ++ stretch ++ rest) (hbefore : ∀ c ∈ before, isBlank c) :
    byteLen before ≤ e.span.start := by
  obtain ⟨c, cs, hbegins, hletter⟩ := hat.begins
  rw [hat.span_eq, Span.behind_start]
  by_contra hover
  -- The first letter of the edit would be one of the blanks.
  rw [List.append_assoc] at htext
  obtain ⟨gap, rfl, hgap⟩ := exists_append_of_byteLen_le htext.symm
    (Nat.le_of_lt (Nat.lt_of_not_le hover))
  cases gap with
  | nil => simp at hover
  | cons d gap =>
    rw [hbegins] at hgap
    obtain ⟨rfl, _⟩ := List.cons.inj hgap
    have hblank := hbefore c (by simp)
    rw [isBlank_of_isWordChar (isWordChar_of_isNamePart
      (isNamePart_of_isFoldedLetter (isFoldedLetter_of_isAlpha hletter)))] at hblank
    cases hblank

/-- No edit ends among the blanks behind a text. -/
theorem liesIn_of_blanks {kept after : List Char} (hat : EditAt e front stretch rest)
    (htext : kept ++ after = front ++ stretch ++ rest) (hafter : ∀ c ∈ after, isBlank c) :
    e.span.LiesIn kept := by
  obtain ⟨c, cs, hbegins, _⟩ := hat.begins
  have hwithin : byteLen (front ++ stretch) ≤ byteLen kept := by
    by_contra hover
    obtain ⟨gap, hgap, hrest⟩ := exists_append_of_byteLen_le htext
      (Nat.le_of_lt (Nat.lt_of_not_le hover))
    have hne : gap ≠ [] := by
      rintro rfl
      rw [hgap, List.append_nil] at hover
      exact hover (Nat.le_refl _)
    -- The last letter of the edit would be one of the blanks.
    obtain ⟨d, hlast, hpart⟩ := hat.last (lastFrom none front)
    obtain ⟨d', hd', hlast'⟩ := lastFrom_mem (lastFrom none kept) hne
    rw [← lastFrom_append, hgap, lastFrom_append, hlast'] at hlast
    obtain rfl := Option.some.inj hlast
    have hblank := hafter d' (by
      rw [hrest]
      exact List.mem_append_left _ hd')
    rw [isNamePart_of_isBlank hblank] at hpart
    cases hpart
  obtain ⟨tail, hkept, _⟩ := exists_append_of_byteLen_le htext.symm hwithin
  exact ⟨front, stretch, tail, hkept, hat.span_eq, by simp [hbegins]⟩

end EditAt

namespace Pruning

variable {lacks : String → Bool} {text : List Char} {done : List Step} {clause : Clause}
  {ahead : List Clause}

/-- A clause takes at least one byte for each of its connector, the space, the column, the operator,
the colon and the name. -/
theorem six_le_length_of_mem_clauses (hclause : clause ∈ clauses text) :
    6 ≤ clause.span.length := by
  obtain ⟨front, reading, rest, hat⟩ := Clause.exists_at_of_mem_clauses hclause
  obtain ⟨operator, hoperator⟩ := hat.wellFormed.comparison.operator
  have hkeyword := byteLen_pos hat.wellFormed.keyword.ne_nil
  have hcolumn := byteLen_pos hat.wellFormed.column.ne_nil
  have hcomparison := byteLen_pos hoperator.ne_nil
  have hname := byteLen_pos hat.wellFormed.comparison.placeholder.ne_nil
  have hspace := Char.utf8Size_pos ' '
  have hcolon := Char.utf8Size_pos ':'
  rw [hat.span_eq, Span.length_behind]
  simp only [Clause.Reading.written, Clause.Comparison.written, byteLen_append, byteLen_cons]
  omega

/-- What the next promotion may cost. -/
def Progress.debt (progress : Progress) : Nat :=
  if progress.owesWhere = true then 5 else 0

/-- A removed clause pays for the `WHERE` that is owed from then on, and a kept one has it written
with what was paid before. -/
theorem debt_after_le (progress : Progress) (hclause : clause ∈ clauses text) :
    let step : Step := ⟨clause, progress.decide lacks text clause⟩
    5 * (Edit.promotions step.edits).length + (progress.after step).debt +
        (Edit.removals step.edits).length ≤
      progress.debt + ((Edit.removals step.edits).map Span.length).sum := by
  intro step
  have hlength := six_le_length_of_mem_clauses hclause
  cases hdecide : progress.decide lacks text clause with
  | swallowed =>
    have hstep : step = ⟨clause, .swallowed⟩ := by rw [← hdecide]
    rw [hstep]
    simp [Step.edits, Progress.after]
  | keep promoted? =>
    have hstep : step = ⟨clause, .keep promoted?⟩ := by rw [← hdecide]
    have hafter : (progress.after ⟨clause, .keep promoted?⟩).debt = 0 := rfl
    rw [hstep, hafter]
    cases promoted? with
    | none => simp [Step.edits]
    | some span =>
      obtain ⟨_, _, hpromoted⟩ := removedTo_le_of_decide_keep hdecide
      have hdebt : progress.debt = 5 := if_pos ((hpromoted span).1 rfl).1
      rw [hdebt]
      exact Nat.le_refl _
  | remove upper? =>
    have hstep : step = ⟨clause, .remove upper?⟩ := by rw [← hdecide]
    have hafter : (progress.after ⟨clause, .remove upper?⟩).debt ≤ progress.debt + 5 := by
      unfold Progress.debt
      split <;> omega
    obtain ⟨_, _, hupper⟩ := removedTo_le_of_decide_remove hdecide
    rw [hstep]
    cases upper? with
    | none =>
      simp only [Step.edits, Edit.promotions_remove_cons, Edit.removals_remove_cons,
        Edit.promotions_nil, Edit.removals_nil, List.map_cons, List.map_nil, List.sum_cons,
        List.sum_nil, List.length_cons, List.length_nil]
      omega
    | some upper =>
      obtain ⟨_, _, _, _, _, hat⟩ :=
        UpperBound.exists_conditionAt_of_mem_clauses hclause (hupper upper rfl)
      have hspan : 1 ≤ upper.span.length := Nat.sub_pos_of_lt hat.start_lt_stop
      simp only [Step.edits, Edit.promotions_remove_cons, Edit.removals_remove_cons,
        Edit.promotions_nil, Edit.removals_nil, List.map_cons, List.map_nil, List.sum_cons,
        List.sum_nil, List.length_cons, List.length_nil]
      omega

/-- What a run removes pays for its promotions and for the `WHERE` that it owes, and leaves a byte
over for each removal. -/
theorem Reaches.paid (hreaches : Reaches lacks text done ahead) :
    5 * (Edit.promotions (editsOf done)).length + (progressAfter done).debt +
        (Edit.removals (editsOf done)).length ≤
      ((Edit.removals (editsOf done)).map Span.length).sum := by
  induction hreaches with
  | start => exact Nat.le_refl _
  | @step done clause ahead hreaches ih =>
    have hpaid :=
      @debt_after_le lacks text clause (progressAfter done) hreaches.invariant.mem_clauses
    rw [editsOf_append, editsOf_singleton, progressAfter_concat, Edit.promotions_append,
      Edit.removals_append, List.length_append, List.length_append, List.map_append,
      List.sum_append]
    simp only at hpaid
    omega

theorem paid_steps (lacks : String → Bool) (text : List Char) :
    5 * (Edit.promotions (editsOf (steps lacks text))).length +
        (Edit.removals (editsOf (steps lacks text))).length ≤
      ((Edit.removals (editsOf (steps lacks text))).map Span.length).sum := by
  obtain ⟨_, hreaches, _⟩ := reaches_of_steps_eq (List.append_nil (steps lacks text)).symm
  have hpaid := hreaches.paid
  omega

/-- Pruning changes only what stands between the blanks at either end of a text, and trims the text
down to that. -/
theorem exists_laid_trim (lacks : String → Bool) (template : String) :
    ∃ before result, Edit.Laid before (carriedOut lacks template.toList) (trim template.toList)
        result ∧
      (Pruned.removing lacks template).sql = String.ofList (trim result) := by
  set text := template.toList
  obtain ⟨before, after, htext, hbefore, hafter⟩ := exists_blanks_around_trim text
  have hbetween : ∀ e ∈ carriedOut lacks text,
      byteLen before ≤ e.span.start ∧ e.span.LiesIn (before ++ trim text) := by
    intro e he
    obtain ⟨_, _, _, hplace, hat⟩ := exists_editAt_of_mem_carriedOut lacks text he
    have hwhole := htext.symm.trans hplace
    exact ⟨hat.le_start_of_blanks ((List.append_assoc ..).symm.trans hwhole) hbefore,
      hat.liesIn_of_blanks hwhole hafter⟩
  obtain ⟨result, hlaid⟩ := Edit.exists_laid (fun e he => (hbetween e he).2)
    (fun e he => (hbetween e he).1) (pairwise_carriedOut lacks text)
  obtain ⟨whole, hwhole, hsql⟩ := exists_laid_removing lacks template
  have hkept : whole = before ++ result ++ after := by
    have hcopy : Edit.copy (carriedOut lacks text) 0 text = whole := hwhole.copy_eq
    have hfront := @Edit.copy_append (carriedOut lacks text) [] before (trim text ++ after)
      fun e he => (hbetween e he).1
    rwa [byteLen_nil, List.nil_append, (hlaid.append after).copy_eq, ← List.append_assoc,
      ← List.append_assoc, ← htext, hcopy] at hfront
  refine ⟨before, result, hlaid, ?_⟩
  rw [hsql, hkept, trim_blanks_around hbefore hafter]

/-- The edits that pruning carries out take away more than they write, by a byte for each removal at
least. -/
theorem paid_carriedOut (lacks : String → Bool) (text : List Char) :
    5 * (Edit.promotions (carriedOut lacks text)).length +
        (Edit.removals (editsOf (steps lacks text))).length ≤
      ((Edit.removals (carriedOut lacks text)).map Span.length).sum := by
  obtain ⟨_, hinvariant⟩ := invariant_steps lacks text
  have hperm := Edit.sort_perm (editsOf (steps lacks text))
  have hrow := Edit.pairwise_sort_of_compatible
    (fun e he => (hinvariant.sited e he).start_lt_stop) hinvariant.compatible
  have hremovals : (Edit.removals (carriedOut lacks text)).Perm
      (Edit.removals (editsOf (steps lacks text))) := by
    rw [carriedOut, Edit.removals_carriedOut hrow fun _ _ _ => Nat.zero_le _]
    exact hperm.filterMap _
  have hpromotions : (Edit.promotions (carriedOut lacks text)).length ≤
      (Edit.promotions (editsOf (steps lacks text))).length :=
    calc (Edit.promotions (carriedOut lacks text)).length
      _ ≤ (Edit.promotions (Edit.sort (editsOf (steps lacks text)))).length :=
        ((Edit.carriedOut_sublist 0 _).filterMap _).length_le
      _ = (Edit.promotions (editsOf (steps lacks text))).length :=
        (hperm.filterMap _).length_eq
  have hpaid := paid_steps lacks text
  rw [(hremovals.map Span.length).sum_nat]
  omega

/-- A pruned text is shorter than the trimmed template, by a byte for each pruned name at least. -/
theorem byteLen_removing_le (lacks : String → Bool) (template : String) :
    (Pruned.removing lacks template).sql.utf8ByteSize +
        (Pruned.removing lacks template).names.length ≤
      (String.ofList (trim template.toList)).utf8ByteSize := by
  obtain ⟨before, result, hlaid, hsql⟩ := exists_laid_trim lacks template
  have hnames : (Edit.removals (editsOf (steps lacks template.toList))).length =
      (Pruned.removing lacks template).names.length :=
    (recorded_steps lacks template.toList).names.length_eq
  have hpaid := paid_carriedOut lacks template.toList
  have hlength := hlaid.byteLen_le
  have htrim := byteLen_trim_le result
  rw [hsql, utf8ByteSize_ofList, utf8ByteSize_ofList]
  omega

/-- Where nothing is pruned, nothing is changed. -/
theorem sql_removing_of_names_eq_nil {lacks : String → Bool} {template : String}
    (hnames : (Pruned.removing lacks template).names = []) :
    (Pruned.removing lacks template).sql = String.ofList (trim template.toList) := by
  have hforall := (recorded_steps lacks template.toList).names
  have hremovals : Edit.removals (editsOf (steps lacks template.toList)) = [] := by
    rw [show (steps lacks template.toList).flatMap Step.prunedNames = [] from hnames] at hforall
    exact List.forall₂_nil_right_iff.1 hforall
  -- A promotion would have been paid for by a removal.
  have hpromotions : Edit.promotions (editsOf (steps lacks template.toList)) = [] := by
    have hpaid := paid_steps lacks template.toList
    rw [hremovals, List.map_nil, List.sum_nil] at hpaid
    exact List.eq_nil_of_length_eq_zero (by omega)
  have hnone : carriedOut lacks template.toList = [] := by
    refine List.eq_nil_iff_forall_not_mem.2 fun e he => ?_
    have hmem := (mem_carriedOut_iff.1 he).1
    cases e with
    | remove span => exact List.not_mem_nil (hremovals ▸ Edit.mem_removals_iff.2 hmem)
    | promote span => exact List.not_mem_nil (hpromotions ▸ Edit.mem_promotions_iff.2 hmem)
  obtain ⟨result, hlaid, hsql⟩ := exists_laid_removing lacks template
  rw [hnone] at hlaid
  cases hlaid
  exact hsql

end Pruning

/-- A pruned text is never longer than the trimmed template. It is the trimmed template where no
name is pruned, and shorter where one is, whatever the promotions write. -/
theorem byteLen_prune_lt_iff (template : String) (bindings : Bindings) (keepsNulls : Bool) :
    let pruned := prune keepsNulls bindings.lacks template
    let trimmed := String.ofList (trim template.toList)
    pruned.sql.utf8ByteSize ≤ trimmed.utf8ByteSize ∧
      (pruned.sql = trimmed ↔ pruned.names = []) ∧
      (pruned.sql.utf8ByteSize < trimmed.utf8ByteSize ↔ pruned.names ≠ []) := by
  intro pruned trimmed
  have hshorter : pruned.sql.utf8ByteSize + pruned.names.length ≤ trimmed.utf8ByteSize := by
    cases keepsNulls with
    | true => exact Nat.le_refl _
    | false => exact Pruning.byteLen_removing_le bindings.lacks template
  have hsame : pruned.names = [] → pruned.sql = trimmed := by
    cases keepsNulls with
    | true => exact fun _ => rfl
    | false => exact Pruning.sql_removing_of_names_eq_nil
  have hdiffers : pruned.names ≠ [] → pruned.sql.utf8ByteSize < trimmed.utf8ByteSize := by
    intro hnames
    have hpos := List.length_pos_of_ne_nil hnames
    omega
  refine ⟨by omega, ⟨fun hsql => ?_, hsame⟩, ⟨fun hlt hnames => ?_, hdiffers⟩⟩
  · by_contra hnames
    have hlt := hdiffers hnames
    rw [hsql] at hlt
    exact Nat.lt_irrefl _ hlt
  · rw [hsame hnames] at hlt
    exact Nat.lt_irrefl _ hlt

end SqlTemplate
