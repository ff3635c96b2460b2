import SqlTemplate.Proofs.Pruning.Edits

namespace SqlTemplate.Edit

instance (e f : Edit) : Decidable (e.TakenBy f) :=
  inferInstanceAs (Decidable (_ ∧ _))

/-- The edits but for the promotions of connectors that a removal takes with it. -/
def effective (edits : List Edit) : List Edit :=
  edits.filter fun e => ∀ f ∈ edits, ¬ e.TakenBy f

/-- A text that begins at byte `position`, written anew: `WHERE` stands where a promotion begins,
what is within an edit is left out, and every other character is copied. -/
def rewrite (edits : List Edit) : Nat → List Char → List Char
  | _, [] => []
  | position, c :: cs =>
    (if ∃ e ∈ edits, e.isPromotion = true ∧ e.span.start = position then
      Connector.where_.letters else []) ++
    (if ∃ e ∈ edits, e.span.start ≤ position ∧ position < e.span.stop then [] else [c]) ++
    rewrite edits (position + c.utf8Size) cs

/-- Copies a text from byte `position` on and carries out sorted edits, as `copy` does, but takes
each stretch between two positions of the whole text. It fails where there is no such stretch. -/
def copyStretches? (text : List Char) : List Edit → Nat → Option (List Char)
  | [], position => (⟨position, byteLen text⟩ : Span).slice? text
  | e :: rest, position =>
    if e.span.start < position then
      copyStretches? text rest position
    else do
      let kept ← (⟨position, e.span.start⟩ : Span).slice? text
      let later ← copyStretches? text rest e.span.stop
      return kept ++ e.replacement ++ later

/-- Edits in a row behind `front`, the text in which they lie, and what they make of it. -/
inductive Laid : List Char → List Edit → List Char → List Char → Prop where
  | nil (front rest : List Char) : Laid front [] rest rest
  | cons {front kept stretch rest result : List Char} {e : Edit} {row : List Edit} :
      e.span = .behind (front ++ kept) stretch → stretch ≠ [] →
        Laid (front ++ kept ++ stretch) row rest result →
          Laid front (e :: row) (kept ++ stretch ++ rest) (kept ++ e.replacement ++ result)

/-- Edits that lie in a text in a row are laid in it. -/
theorem exists_laid {front rest : List Char} {row : List Edit}
    (hspans : ∀ e ∈ row, e.span.LiesIn (front ++ rest))
    (hbehind : ∀ e ∈ row, byteLen front ≤ e.span.start)
    (hrow : row.Pairwise fun e f => e.span.stop ≤ f.span.start) :
    ∃ result, Laid front row rest result := by
  induction row generalizing front rest with
  | nil => exact ⟨rest, .nil front rest⟩
  | cons e row ih =>
    obtain ⟨hfirst, hrow'⟩ := List.pairwise_cons.1 hrow
    obtain ⟨front', stretch, later, htext, hspan, hne⟩ := hspans e List.mem_cons_self
    have hstart := hbehind e List.mem_cons_self
    rw [hspan, Span.behind_start] at hstart
    rw [List.append_assoc front'] at htext
    obtain ⟨kept, rfl, rfl⟩ := exists_append_of_byteLen_le htext hstart
    have hbehind' : ∀ f ∈ row, byteLen (front ++ kept ++ stretch) ≤ f.span.start := by
      intro f hf
      have hle := hfirst f hf
      rwa [hspan, Span.behind_stop, ← byteLen_append] at hle
    obtain ⟨result, hlaid⟩ := @ih (front ++ kept ++ stretch) later
      (fun f hf => by simpa using hspans f (List.mem_cons_of_mem e hf)) hbehind' hrow'
    refine ⟨kept ++ e.replacement ++ result, ?_⟩
    rw [← List.append_assoc]
    exact .cons hspan hne hlaid

namespace Laid

variable {front rest result : List Char} {row : List Edit}

theorem le_start (hlaid : Laid front row rest result) {e : Edit} (he : e ∈ row) :
    byteLen front ≤ e.span.start := by
  induction hlaid with
  | nil => cases he
  | cons hspan _ _ ih =>
    obtain rfl | he := List.mem_cons.1 he
    · rw [hspan, Span.behind_start, byteLen_append]
      omega
    · have hle := ih he
      rw [byteLen_append, byteLen_append] at hle
      omega

/-- The first edit and the ones behind it begin behind what is kept in front of it. -/
theorem le_start_cons {kept stretch : List Char} {e : Edit}
    (hspan : e.span = .behind (front ++ kept) stretch)
    (hlaid : Laid (front ++ kept ++ stretch) row rest result) :
    ∀ f ∈ e :: row, byteLen (front ++ kept) ≤ f.span.start := by
  intro f hf
  obtain rfl | hf := List.mem_cons.1 hf
  · rw [hspan]
    exact Nat.le_refl _
  · have hle := hlaid.le_start hf
    rw [byteLen_append (front ++ kept)] at hle
    omega

theorem copy_eq (hlaid : Laid front row rest result) :
    copy row (byteLen front) rest = result := by
  induction hlaid with
  | nil => rfl
  | @cons front kept stretch rest result e row hspan _ hlater ih =>
    rw [List.append_assoc, copy_append kept _ (le_start_cons hspan hlater), copy_cons _ hspan, ih,
      List.append_assoc]

theorem copyStretches?_eq (hlaid : Laid front row rest result) :
    copyStretches? (front ++ rest) row (byteLen front) = some result := by
  induction hlaid with
  | nil front rest =>
    refine Span.slice?_eq_some_iff.2 ⟨front, [], by simp, ?_⟩
    rw [byteLen_append]
    rfl
  | @cons front kept stretch rest result e row hspan hne hlater ih =>
    have hnot : ¬ e.span.start < byteLen front := by
      rw [hspan, Span.behind_start, byteLen_append]
      omega
    have hkept : (⟨byteLen front, e.span.start⟩ : Span).slice?
        (front ++ (kept ++ stretch ++ rest)) = some kept := by
      refine Span.slice?_eq_some_iff.2 ⟨front, stretch ++ rest, by simp, ?_⟩
      rw [hspan, Span.behind_start, byteLen_append]
      rfl
    have hstop : e.span.stop = byteLen (front ++ kept ++ stretch) := by
      rw [hspan, Span.behind_stop, ← byteLen_append]
    have htext : front ++ (kept ++ stretch ++ rest) = front ++ kept ++ stretch ++ rest := by simp
    rw [copyStretches?, if_neg hnot, hkept, hstop, htext, ih]
    rfl

end Laid

section Rewrite

variable {edits : List Edit}

/-- In front of all edits the text is copied. -/
theorem rewrite_append_of_before {front : List Char} (kept rest : List Char)
    (hbehind : ∀ e ∈ edits, byteLen (front ++ kept) ≤ e.span.start) :
    rewrite edits (byteLen front) (kept ++ rest) =
      kept ++ rewrite edits (byteLen (front ++ kept)) rest := by
  induction kept generalizing front with
  | nil => simp
  | cons c cs ih =>
    have hlen : byteLen front + c.utf8Size = byteLen (front ++ [c]) := by simp
    have hahead : ∀ e ∈ edits, byteLen front < e.span.start := by
      intro e he
      have hle := hbehind e he
      have hpos := byteLen_pos (List.cons_ne_nil c cs)
      rw [byteLen_append] at hle
      omega
    have hpromotion : ¬ ∃ e ∈ edits, e.isPromotion = true ∧ e.span.start = byteLen front := by
      rintro ⟨e, he, _, hstart⟩
      have hlt := hahead e he
      omega
    have hwithin : ¬ ∃ e ∈ edits, e.span.start ≤ byteLen front ∧ byteLen front < e.span.stop := by
      rintro ⟨e, he, hstart, _⟩
      have hlt := hahead e he
      omega
    rw [List.cons_append, rewrite, if_neg hpromotion, if_neg hwithin, hlen,
      @ih (front ++ [c]) (by simpa using hbehind)]
    simp

/-- What an edit goes on over is left out. -/
theorem rewrite_append_of_within {e : Edit} {row : List Edit} {position : Nat}
    (stretch rest : List Char) (hstart : e.span.start < position)
    (hstop : position + byteLen stretch ≤ e.span.stop)
    (hrow : ∀ f ∈ row, e.span.stop ≤ f.span.start) :
    rewrite (e :: row) position (stretch ++ rest) =
      rewrite (e :: row) (position + byteLen stretch) rest := by
  induction stretch generalizing position with
  | nil => rfl
  | cons c cs ih =>
    have hpos := c.utf8Size_pos
    rw [byteLen_cons] at hstop
    have hpromotion : ¬ ∃ f ∈ e :: row, f.isPromotion = true ∧ f.span.start = position := by
      rintro ⟨f, hf, _, hat⟩
      obtain rfl | hf := List.mem_cons.1 hf
      · omega
      · have hle := hrow f hf
        omega
    have hwithin : ∃ f ∈ e :: row, f.span.start ≤ position ∧ position < f.span.stop :=
      ⟨e, List.mem_cons_self, by omega, by omega⟩
    rw [List.cons_append, rewrite, if_neg hpromotion, if_pos hwithin, List.nil_append,
      List.nil_append, ih (by omega) (by omega), byteLen_cons, Nat.add_assoc]

/-- Edits that end in front of a text do not bear on it. -/
theorem rewrite_cons_of_behind {e : Edit} {position : Nat} (hbehind : e.span.stop ≤ position)
    (hspan : e.span.start < e.span.stop) (text : List Char) :
    rewrite (e :: edits) position text = rewrite edits position text := by
  induction text generalizing position with
  | nil => rfl
  | cons c cs ih =>
    have hnot : ¬ (e.isPromotion = true ∧ e.span.start = position) := by
      rintro ⟨_, hstart⟩
      omega
    have hnot' : ¬ (e.span.start ≤ position ∧ position < e.span.stop) := by
      rintro ⟨_, hstop⟩
      omega
    simp only [rewrite, List.exists_mem_cons_iff, hnot, hnot', false_or]
    rw [ih (by omega)]

/-- The stretch of the first edit is replaced. -/
theorem rewrite_cons {e : Edit} {row : List Edit} {front stretch : List Char} (rest : List Char)
    (hspan : e.span = .behind front stretch) (hne : stretch ≠ [])
    (hrow : ∀ f ∈ row, e.span.stop ≤ f.span.start) :
    rewrite (e :: row) (byteLen front) (stretch ++ rest) =
      e.replacement ++ rewrite row (byteLen (front ++ stretch)) rest := by
  obtain ⟨c, cs, rfl⟩ := List.exists_cons_of_ne_nil hne
  have hpos := c.utf8Size_pos
  have hstart : e.span.start = byteLen front := by rw [hspan, Span.behind_start]
  have hstop : e.span.stop = byteLen front + c.utf8Size + byteLen cs := by
    rw [hspan, Span.behind_stop, byteLen_cons, Nat.add_assoc]
  have hwithin : ∃ f ∈ e :: row, f.span.start ≤ byteLen front ∧ byteLen front < f.span.stop :=
    ⟨e, List.mem_cons_self, by omega, by omega⟩
  have hpromotion : (∃ f ∈ e :: row, f.isPromotion = true ∧ f.span.start = byteLen front) ↔
      e.isPromotion = true := by
    constructor
    · rintro ⟨f, hf, hpromotes, hat⟩
      obtain rfl | hf := List.mem_cons.1 hf
      · exact hpromotes
      · have hle := hrow f hf
        omega
    · exact fun hpromotes => ⟨e, List.mem_cons_self, hpromotes, hstart⟩
  have hreplacement : (if e.isPromotion = true then Connector.where_.letters else []) =
      e.replacement := by
    cases e <;> rfl
  have hbehind : byteLen (front ++ c :: cs) = byteLen front + c.utf8Size + byteLen cs := by
    rw [byteLen_append, byteLen_cons, Nat.add_assoc]
  rw [List.cons_append, rewrite, if_pos hwithin, List.append_nil,
    rewrite_append_of_within cs rest (by omega) (by omega) hrow,
    rewrite_cons_of_behind (by omega) (by omega), hbehind]
  simp only [hpromotion, hreplacement]

/-- The order of the edits does not matter, nor how often one is given. -/
theorem rewrite_congr {edits' : List Edit} (hsame : ∀ e, e ∈ edits ↔ e ∈ edits') (position : Nat)
    (text : List Char) : rewrite edits position text = rewrite edits' position text := by
  induction text generalizing position with
  | nil => rfl
  | cons c cs ih => simp only [rewrite, hsame, ih]

end Rewrite

theorem Laid.rewrite_eq {front rest result : List Char} {row : List Edit}
    (hlaid : Laid front row rest result) : rewrite row (byteLen front) rest = result := by
  induction hlaid with
  | nil front rest =>
    have hcopied := @rewrite_append_of_before [] front rest [] (by simp)
    rw [List.append_nil] at hcopied
    rw [hcopied]
    simp [rewrite]
  | @cons front kept stretch rest result e row hspan hne hlater ih =>
    have hrow : ∀ f ∈ row, e.span.stop ≤ f.span.start := by
      intro f hf
      have hle := hlater.le_start hf
      rwa [byteLen_append, ← Span.behind_stop, ← hspan] at hle
    rw [List.append_assoc, rewrite_append_of_before kept _ (le_start_cons hspan hlater),
      rewrite_cons rest hspan hne hrow, ih, List.append_assoc]

section CarriedOut

variable {edits : List Edit} {text : List Char}

theorem copyStretches?_carriedOut (position : Nat) :
    copyStretches? text (carriedOut position edits) position =
      copyStretches? text edits position := by
  induction edits generalizing position with
  | nil => rfl
  | cons e rest ih =>
    by_cases hpassed : e.span.start < position
    · simp [carriedOut, copyStretches?, hpassed, ih]
    · simp [carriedOut, copyStretches?, hpassed, ih]

theorem mem_effective_iff {e : Edit} :
    e ∈ effective edits ↔ e ∈ edits ∧ ∀ f ∈ edits, ¬ e.TakenBy f := by
  simp [effective]

/-- What is carried out of compatible edits is laid in the text. -/
theorem exists_laid_carriedOut (hspans : ∀ e ∈ edits, e.span.LiesIn text) :
    ∃ result, Laid [] (carriedOut 0 (sort edits)) text result := by
  have hsorted : ∀ e ∈ sort edits, e.span.LiesIn text := fun e he =>
    hspans e ((sort_perm edits).mem_iff.1 he)
  obtain ⟨_, hrow⟩ := @pairwise_carriedOut 0 (sort edits) fun e he =>
    Nat.le_of_lt (Span.liesIn_iff.1 (hsorted e he)).1
  exact exists_laid (fun e he => hsorted e (mem_of_mem_carriedOut he)) (fun _ _ => Nat.zero_le _)
    hrow

/-- Carrying out compatible edits writes each character anew, whatever the order of the edits. -/
theorem applyAll_eq_rewrite (hspans : ∀ e ∈ edits, e.span.LiesIn text)
    (hcompatible : edits.Pairwise Compatible) :
    applyAll edits text = rewrite (effective edits) 0 text := by
  obtain ⟨result, hlaid⟩ := exists_laid_carriedOut hspans
  have hcopy : copy (carriedOut 0 (sort edits)) 0 text = result := hlaid.copy_eq
  have hrewrite : rewrite (carriedOut 0 (sort edits)) 0 text = result := hlaid.rewrite_eq
  have hsame : ∀ e, e ∈ carriedOut 0 (sort edits) ↔ e ∈ effective edits := by
    intro e
    rw [mem_effective_iff,
      mem_carriedOut_sort_iff (fun f hf => (Span.liesIn_iff.1 (hspans f hf)).1) hcompatible]
  rw [applyAll, ← copy_carriedOut, hcopy, ← hrewrite, rewrite_congr hsame]

/-- Every stretch that is copied is there: none is reversed, reaches beyond the text or cuts a
character. -/
theorem copyStretches?_sort (hspans : ∀ e ∈ edits, e.span.LiesIn text) :
    copyStretches? text (sort edits) 0 = some (applyAll edits text) := by
  obtain ⟨result, hlaid⟩ := exists_laid_carriedOut hspans
  have hcopy : copy (carriedOut 0 (sort edits)) 0 text = result := hlaid.copy_eq
  have hstretches : copyStretches? text (carriedOut 0 (sort edits)) 0 = some result :=
    hlaid.copyStretches?_eq
  rw [← copyStretches?_carriedOut, hstretches, applyAll, ← copy_carriedOut, hcopy]

end CarriedOut

end SqlTemplate.Edit
