import Mathlib.Data.List.Basic
import Mathlib.Tactic.ByContra
import SqlTemplate.Text.Span

namespace SqlTemplate

theorem byteLen_eq_zero_iff {cs : List Char} : byteLen cs = 0 ↔ cs = [] := by
  constructor
  · intro hzero
    by_contra hne
    have hpos := byteLen_pos hne
    omega
  · rintro rfl
    rfl

/-- The bytes of a string are those of its characters. -/
theorem utf8ByteSize_ofList (cs : List Char) : (String.ofList cs).utf8ByteSize = byteLen cs := by
  induction cs with
  | nil => rfl
  | cons c cs ih =>
    rw [String.ofList_cons, String.utf8ByteSize_append, String.utf8ByteSize_singleton, ih,
      byteLen_cons]

/-- Of two beginnings of a text the one with fewer bytes is a beginning of the other, so places in a
text are compared by the bytes in front of them. -/
theorem exists_append_of_byteLen_le {a b c d : List Char} (happend : a ++ b = c ++ d)
    (hle : byteLen a ≤ byteLen c) : ∃ m, c = a ++ m ∧ b = m ++ d := by
  obtain ⟨m, hc, hb⟩ | ⟨m, ha, hd⟩ := List.append_eq_append_iff.1 happend
  · exact ⟨m, hc, hb⟩
  · have hlen : byteLen m = 0 := by
      rw [ha, byteLen_append] at hle
      omega
    obtain rfl := byteLen_eq_zero_iff.1 hlen
    exact ⟨[], by simpa using ha.symm, by simpa using hd.symm⟩

theorem append_inj_of_byteLen_eq {a b c d : List Char} (happend : a ++ b = c ++ d)
    (heq : byteLen a = byteLen c) : a = c ∧ b = d := by
  obtain ⟨m, hc, hb⟩ := exists_append_of_byteLen_le happend (Nat.le_of_eq heq)
  have hlen : byteLen m = 0 := by
    rw [hc, byteLen_append] at heq
    omega
  obtain rfl := byteLen_eq_zero_iff.1 hlen
  exact ⟨by simpa using hc.symm, by simpa using hb⟩

/-- A place within a stretch splits the stretch. -/
theorem split_of_within {front stretch rest front' rest' : List Char}
    (htext : front ++ stretch ++ rest = front' ++ rest') (hstart : byteLen front < byteLen front')
    (hstop : byteLen front' < byteLen front + byteLen stretch) :
    ∃ gap tail, gap ≠ [] ∧ tail ≠ [] ∧ stretch = gap ++ tail ∧ front' = front ++ gap ∧
      rest' = tail ++ rest := by
  rw [List.append_assoc] at htext
  obtain ⟨gap, rfl, hgap⟩ := exists_append_of_byteLen_le htext (Nat.le_of_lt hstart)
  rw [byteLen_append] at hstart hstop
  obtain ⟨tail, rfl, hrest⟩ := exists_append_of_byteLen_le hgap.symm (by omega)
  rw [byteLen_append] at hstop
  refine ⟨gap, tail, ?_, ?_, rfl, rfl, hrest⟩
  · rintro rfl
    simp at hstart
  · rintro rfl
    simp at hstop

theorem splitAtByte_byteLen_add (front rest : List Char) (n : Nat) :
    splitAtByte (byteLen front + n) (front ++ rest) =
      (front ++ (splitAtByte n rest).1, (splitAtByte n rest).2) := by
  induction front with
  | nil => simp
  | cons c cs ih =>
    have hfits : c.utf8Size ≤ c.utf8Size + byteLen cs + n := by omega
    have hrest : c.utf8Size + byteLen cs + n - c.utf8Size = byteLen cs + n := by omega
    simp only [List.cons_append, splitAtByte, byteLen_cons, hfits, if_true, hrest, ih]

/-- The last character of a text that stands behind the character `before`. -/
def lastFrom : Option Char → List Char → Option Char
  | before, [] => before
  | _, c :: cs => lastFrom (some c) cs

@[simp]
theorem lastFrom_nil (before : Option Char) : lastFrom before [] = before := rfl

@[simp]
theorem lastFrom_cons (before : Option Char) (c : Char) (cs : List Char) :
    lastFrom before (c :: cs) = lastFrom (some c) cs := rfl

theorem lastFrom_append (before : Option Char) (cs ds : List Char) :
    lastFrom before (cs ++ ds) = lastFrom (lastFrom before cs) ds := by
  induction cs generalizing before with
  | nil => rfl
  | cons c cs ih => exact ih (some c)

@[simp]
theorem lastFrom_concat (before : Option Char) (cs : List Char) (c : Char) :
    lastFrom before (cs ++ [c]) = some c := by
  simp [lastFrom_append]

theorem lastFrom_mem (before : Option Char) {cs : List Char} (hne : cs ≠ []) :
    ∃ c ∈ cs, lastFrom before cs = some c := by
  obtain ⟨init, c, rfl⟩ := cs.eq_nil_or_concat'.resolve_left hne
  exact ⟨c, by simp, by simp⟩

/-- The span of a stretch that has `front` before it in its text. -/
def Span.behind (front stretch : List Char) : Span :=
  ⟨byteLen front, byteLen front + byteLen stretch⟩

namespace Span

@[simp]
theorem behind_start (front stretch : List Char) : (behind front stretch).start = byteLen front :=
  rfl

@[simp]
theorem behind_stop (front stretch : List Char) :
    (behind front stretch).stop = byteLen front + byteLen stretch := rfl

theorem overlaps_iff {a b : Span} : a.overlaps b ↔ a.start < b.stop ∧ b.start < a.stop := by
  simp [overlaps]

theorem slice?_eq_some_iff {span : Span} {text stretch : List Char} :
    span.slice? text = some stretch ↔
      ∃ front rest, text = front ++ stretch ++ rest ∧ span = .behind front stretch := by
  unfold slice?
  constructor
  · intro hslice
    split at hslice
    · next hle =>
      obtain ⟨⟨front, behind⟩, hstart, hslice⟩ := Option.bind_eq_some_iff.1 hslice
      obtain ⟨⟨stretch', rest⟩, hstop, heq⟩ := Option.bind_eq_some_iff.1 hslice
      obtain rfl : stretch' = stretch := Option.some.inj heq
      obtain ⟨rfl, hfront⟩ := splitAtByte?_eq_some_iff.1 hstart
      obtain ⟨rfl, hstretch⟩ := splitAtByte?_eq_some_iff.1 hstop
      refine ⟨front, rest, by rw [List.append_assoc], ?_⟩
      obtain ⟨start, stop⟩ := span
      simp only at hle hfront hstretch
      simp only [behind, mk.injEq]
      omega
    · cases hslice
  · rintro ⟨front, rest, rfl, rfl⟩
    have hdistance : byteLen front + byteLen stretch - byteLen front = byteLen stretch := by omega
    have hfront : splitAtByte? (byteLen front) (front ++ (stretch ++ rest)) =
        some (front, stretch ++ rest) := splitAtByte?_eq_some_iff.2 ⟨rfl, rfl⟩
    have hstretch : splitAtByte? (byteLen stretch) (stretch ++ rest) = some (stretch, rest) :=
      splitAtByte?_eq_some_iff.2 ⟨rfl, rfl⟩
    simp [hdistance, hfront, hstretch]

/-- The span covers some of the text, from one place in it to another. -/
def LiesIn (text : List Char) (span : Span) : Prop :=
  ∃ front stretch rest, text = front ++ stretch ++ rest ∧ span = .behind front stretch ∧
    stretch ≠ []

theorem liesIn_iff {text : List Char} {span : Span} :
    span.LiesIn text ↔ span.start < span.stop ∧ (span.slice? text).isSome := by
  constructor
  · rintro ⟨front, stretch, rest, htext, hspan, hne⟩
    have hpos := byteLen_pos hne
    refine ⟨?_, Option.isSome_iff_exists.2
      ⟨stretch, slice?_eq_some_iff.2 ⟨front, rest, htext, hspan⟩⟩⟩
    rw [hspan, behind_start, behind_stop]
    omega
  · rintro ⟨hnonempty, hslice⟩
    obtain ⟨stretch, hstretch⟩ := Option.isSome_iff_exists.1 hslice
    obtain ⟨front, rest, htext, hspan⟩ := slice?_eq_some_iff.1 hstretch
    refine ⟨front, stretch, rest, htext, hspan, ?_⟩
    rintro rfl
    rw [hspan] at hnonempty
    simp at hnonempty

end Span

end SqlTemplate
