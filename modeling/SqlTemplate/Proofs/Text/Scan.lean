import SqlTemplate.Proofs.Text.Place
import SqlTemplate.Text.Scan

namespace SqlTemplate

namespace Recogniser

variable {α : Type}

theorem piecesFrom_length_append (r : Recogniser α) (before : Option Char) (cs rest : List Char) :
    r.piecesFrom cs.length before (cs ++ rest) = r.piecesFrom 0 (lastFrom before cs) rest := by
  induction cs generalizing before with
  | nil => rfl
  | cons c cs ih => simpa [piecesFrom] using ih (some c)

/-- The finds in a text that begins at byte `start`, behind the character `before`. -/
def scanFrom (r : Recogniser α) (start : Nat) (before : Option Char) (text : List Char) :
    List (Match α) :=
  locate start (r.piecesFrom 0 before text)

theorem scan_eq_scanFrom (r : Recogniser α) (text : List Char) :
    r.scan text = r.scanFrom 0 none text := rfl

@[simp]
theorem scanFrom_nil (r : Recogniser α) (start : Nat) (before : Option Char) :
    r.scanFrom start before [] = [] := rfl

theorem piecesFrom_cons_of_none (r : Recogniser α) {before : Option Char} {c : Char}
    {cs : List Char} (hread : r.read? before (c :: cs) = none) :
    r.piecesFrom 0 before (c :: cs) = .plain c :: r.piecesFrom 0 (some c) cs := by
  simp [piecesFrom, hread]

theorem piecesFrom_of_some (r : Recogniser α) {before : Option Char} {written rest : List Char}
    {value : α} (hread : r.read? before (written ++ rest) = some (written, value)) :
    r.piecesFrom 0 before (written ++ rest) =
      .found written value :: r.piecesFrom 0 (lastFrom before written) rest := by
  obtain ⟨c, cs, rfl⟩ := List.exists_cons_of_ne_nil (r.written_ne_nil hread)
  rw [List.cons_append] at hread
  have hskip := r.piecesFrom_length_append (some c) cs rest
  simp only [List.cons_append, piecesFrom, hread, List.length_cons, Nat.add_sub_cancel, hskip,
    lastFrom_cons]

theorem scanFrom_cons_of_none (r : Recogniser α) {start : Nat} {before : Option Char} {c : Char}
    {cs : List Char} (hread : r.read? before (c :: cs) = none) :
    r.scanFrom start before (c :: cs) = r.scanFrom (start + c.utf8Size) (some c) cs := by
  rw [scanFrom, r.piecesFrom_cons_of_none hread, locate, scanFrom]

theorem scanFrom_of_some (r : Recogniser α) {start : Nat} {before : Option Char}
    {written rest : List Char} {value : α}
    (hread : r.read? before (written ++ rest) = some (written, value)) :
    r.scanFrom start before (written ++ rest) =
      ⟨⟨start, start + byteLen written⟩, value⟩ ::
        r.scanFrom (start + byteLen written) (lastFrom before written) rest := by
  rw [scanFrom, r.piecesFrom_of_some hread, locate, scanFrom]

/-- A text at no place of which anything is read, when `rest` follows it. -/
def Unread (r : Recogniser α) (before : Option Char) (text rest : List Char) : Prop :=
  ∀ front c back, text = front ++ c :: back →
    r.read? (lastFrom before front) (c :: (back ++ rest)) = none

theorem unread_nil (r : Recogniser α) (before : Option Char) (rest : List Char) :
    r.Unread before [] rest := by
  intro front c back htext
  simp at htext

theorem unread_cons (r : Recogniser α) {before : Option Char} {c : Char} {cs rest : List Char}
    (hhere : r.read? before (c :: (cs ++ rest)) = none) (hlater : r.Unread (some c) cs rest) :
    r.Unread before (c :: cs) rest := by
  intro front d back htext
  cases front with
  | nil =>
    obtain ⟨rfl, rfl⟩ := List.cons.inj htext
    exact hhere
  | cons e front =>
    obtain ⟨rfl, rfl⟩ := List.cons.inj htext
    exact hlater front d back rfl

theorem Unread.append (r : Recogniser α) {before : Option Char} {cs ds rest : List Char}
    (hcs : r.Unread before cs (ds ++ rest)) (hds : r.Unread (lastFrom before cs) ds rest) :
    r.Unread before (cs ++ ds) rest := by
  induction cs generalizing before with
  | nil => exact hds
  | cons c cs ih =>
    apply r.unread_cons
    · simpa using hcs [] c cs rfl
    · exact ih (fun front d back htext => hcs (c :: front) d back (by simp [htext])) hds

theorem scanFrom_append_of_unread (r : Recogniser α) {start : Nat} {before : Option Char}
    {text rest : List Char} (hunread : r.Unread before text rest) :
    r.scanFrom start before (text ++ rest) =
      r.scanFrom (start + byteLen text) (lastFrom before text) rest := by
  induction text generalizing start before with
  | nil => rfl
  | cons c cs ih =>
    have hhere : r.read? before (c :: (cs ++ rest)) = none := hunread [] c cs rfl
    rw [List.cons_append, r.scanFrom_cons_of_none hhere,
      ih fun front d back htext => hunread (c :: front) d back (by simp [htext])]
    simp [Nat.add_assoc]

/-- A scan goes on behind a character at which nothing is read, and behind what it finds. -/
theorem scan_induction (r : Recogniser α) {motive : Option Char → List Char → Prop}
    (hnil : ∀ before, motive before [])
    (hplain : ∀ before c cs, r.read? before (c :: cs) = none → motive (some c) cs →
      motive before (c :: cs))
    (hfound : ∀ before written rest value,
      r.read? before (written ++ rest) = some (written, value) →
      motive (lastFrom before written) rest → motive before (written ++ rest))
    (before : Option Char) (text : List Char) : motive before text := by
  induction hlength : text.length using Nat.strongRecOn generalizing before text with
  | _ length ih =>
    subst hlength
    cases text with
    | nil => exact hnil before
    | cons c cs =>
      cases hread : r.read? before (c :: cs) with
      | none => exact hplain before c cs hread (ih cs.length (by simp) (some c) cs rfl)
      | some find =>
        obtain ⟨written, value⟩ := find
        obtain ⟨rest, htext⟩ := r.exists_append hread
        have hpos := List.length_pos_of_ne_nil (r.written_ne_nil hread)
        rw [htext] at hread ih ⊢
        exact hfound before written rest value hread
          (ih rest.length (by simp only [List.length_append]; omega) _ rest rfl)

/-- A find of a scan stands in the text where the recogniser read it. -/
theorem exists_of_mem_scanFrom (r : Recogniser α) {start : Nat} {before : Option Char}
    {text : List Char} {m : Match α} (hmem : m ∈ r.scanFrom start before text) :
    ∃ front written rest, text = front ++ written ++ rest ∧
      m.span = ⟨start + byteLen front, start + byteLen front + byteLen written⟩ ∧
      r.read? (lastFrom before front) (written ++ rest) = some (written, m.value) := by
  induction before, text using r.scan_induction generalizing start with
  | hnil before => simp at hmem
  | hplain before c cs hread ih =>
    rw [r.scanFrom_cons_of_none hread] at hmem
    obtain ⟨front, written, rest, rfl, hspan, hfound⟩ := ih hmem
    exact ⟨c :: front, written, rest, by simp, by simp [hspan, Nat.add_assoc], hfound⟩
  | hfound before written rest value hread ih =>
    rw [r.scanFrom_of_some hread] at hmem
    obtain rfl | hlater := List.mem_cons.1 hmem
    · exact ⟨[], written, rest, rfl, by simp, hread⟩
    · obtain ⟨front, written', rest', rfl, hspan, hfound⟩ := ih hlater
      exact ⟨written ++ front, written', rest', by simp, by simp [hspan, Nat.add_assoc],
        by simpa [lastFrom_append] using hfound⟩

theorem start_le_of_mem_scanFrom (r : Recogniser α) {start : Nat} {before : Option Char}
    {text : List Char} {m : Match α} (hmem : m ∈ r.scanFrom start before text) :
    start ≤ m.span.start := by
  obtain ⟨_, _, _, _, hspan, _⟩ := r.exists_of_mem_scanFrom hmem
  simp [hspan]

/-- The finds of a scan follow one another without overlap. -/
theorem pairwise_scanFrom (r : Recogniser α) (start : Nat) (before : Option Char)
    (text : List Char) :
    (r.scanFrom start before text).Pairwise fun m n => m.span.stop ≤ n.span.start := by
  induction before, text using r.scan_induction generalizing start with
  | hnil before => simp
  | hplain before c cs hread ih =>
    rw [r.scanFrom_cons_of_none hread]
    exact ih _
  | hfound before written rest value hread ih =>
    rw [r.scanFrom_of_some hread, List.pairwise_cons]
    exact ⟨fun n hn => r.start_le_of_mem_scanFrom hn, ih _⟩

/-- What can be read at a place is found there, unless the place lies within a find. -/
theorem mem_scanFrom_or_within (r : Recogniser α) (start : Nat) {before : Option Char}
    {front written rest : List Char} {value : α}
    (hread : r.read? (lastFrom before front) (written ++ rest) = some (written, value)) :
    ⟨⟨start + byteLen front, start + byteLen front + byteLen written⟩, value⟩ ∈
        r.scanFrom start before (front ++ written ++ rest) ∨
      ∃ m ∈ r.scanFrom start before (front ++ written ++ rest),
        m.span.start < start + byteLen front ∧ start + byteLen front < m.span.stop := by
  generalize htext : front ++ written ++ rest = text
  induction before, text using r.scan_induction generalizing start front with
  | hnil before =>
    have hne := r.written_ne_nil hread
    simp [hne] at htext
  | hplain before c cs hnone ih =>
    cases front with
    | nil =>
      rw [List.nil_append] at htext
      rw [htext] at hread
      simp [hnone] at hread
    | cons d front =>
      obtain ⟨rfl, rfl⟩ := List.cons.inj htext
      rw [r.scanFrom_cons_of_none hnone]
      simpa [Nat.add_assoc] using @ih (start + d.utf8Size) front hread rfl
  | hfound before first later found hfirst ih =>
    rw [r.scanFrom_of_some hfirst]
    by_cases hbehind : byteLen first ≤ byteLen front
    · rw [List.append_assoc] at htext
      obtain ⟨gap, rfl, hlater⟩ := exists_append_of_byteLen_le htext.symm hbehind
      rw [lastFrom_append] at hread
      have hrest := @ih (start + byteLen first) gap hread (by rw [hlater, List.append_assoc])
      simp only [byteLen_append, ← Nat.add_assoc] at hrest ⊢
      obtain hmem | ⟨m, hmem, hwithin⟩ := hrest
      · exact .inl (List.mem_cons_of_mem _ hmem)
      · exact .inr ⟨m, List.mem_cons_of_mem _ hmem, hwithin⟩
    · cases hfront : byteLen front with
      | zero =>
        obtain rfl := byteLen_eq_zero_iff.1 hfront
        rw [List.nil_append] at htext
        rw [lastFrom_nil, htext, hfirst] at hread
        obtain ⟨rfl, rfl⟩ := Prod.mk.inj (Option.some.inj hread)
        exact .inl (by simp)
      | succ n =>
        refine .inr ⟨_, List.mem_cons_self, ?_, ?_⟩ <;> simp only <;> omega

end Recogniser

end SqlTemplate
