namespace SqlTemplate

/-- The number of bytes that a text takes in UTF-8. -/
def byteLen : List Char → Nat
  | [] => 0
  | c :: cs => c.utf8Size + byteLen cs

@[simp]
theorem byteLen_nil : byteLen [] = 0 := rfl

@[simp]
theorem byteLen_cons (c : Char) (cs : List Char) : byteLen (c :: cs) = c.utf8Size + byteLen cs :=
  rfl

@[simp]
theorem byteLen_append (cs ds : List Char) : byteLen (cs ++ ds) = byteLen cs + byteLen ds := by
  induction cs with
  | nil => simp
  | cons c cs ih => simp [ih, Nat.add_assoc]

theorem byteLen_pos {cs : List Char} (hne : cs ≠ []) : 0 < byteLen cs := by
  cases cs with
  | nil => exact absurd rfl hne
  | cons c cs => exact Nat.add_pos_left c.utf8Size_pos _

/-- The longest beginning of a text that takes at most `n` bytes, and what follows it. -/
def splitAtByte (n : Nat) : List Char → List Char × List Char
  | [] => ([], [])
  | c :: cs =>
    if c.utf8Size ≤ n then
      let (front, rest) := splitAtByte (n - c.utf8Size) cs
      (c :: front, rest)
    else
      ([], c :: cs)

/-- A split neither loses nor reorders characters. -/
theorem splitAtByte_fst_append_snd (n : Nat) (cs : List Char) :
    (splitAtByte n cs).1 ++ (splitAtByte n cs).2 = cs := by
  induction cs generalizing n with
  | nil => rfl
  | cons c cs ih =>
    unfold splitAtByte
    split
    · simp [ih]
    · rfl

/-- Splitting at the length of a beginning gives that beginning back. -/
theorem splitAtByte_append (front rest : List Char) :
    splitAtByte (byteLen front) (front ++ rest) = (front, rest) := by
  induction front with
  | nil =>
    cases rest with
    | nil => rfl
    | cons c cs =>
      have hpos := c.utf8Size_pos
      have hover : ¬ c.utf8Size ≤ 0 := by omega
      simp [splitAtByte, hover]
  | cons c cs ih =>
    have hrest : c.utf8Size + byteLen cs - c.utf8Size = byteLen cs := by omega
    simp only [List.cons_append, splitAtByte, byteLen_cons, Nat.le_add_right, if_true, hrest, ih]

/-- Splits a text where exactly `n` bytes have passed. There is no such place beyond the end of the
text or within a character. -/
def splitAtByte? (n : Nat) (text : List Char) : Option (List Char × List Char) :=
  if byteLen (splitAtByte n text).1 = n then some (splitAtByte n text) else none

theorem splitAtByte?_eq_some_iff {n : Nat} {text front rest : List Char} :
    splitAtByte? n text = some (front, rest) ↔ text = front ++ rest ∧ byteLen front = n := by
  unfold splitAtByte?
  constructor
  · intro hsplit
    split at hsplit
    · next hlen =>
      have hparts := Option.some.inj hsplit
      have happend := splitAtByte_fst_append_snd n text
      rw [hparts] at happend hlen
      exact ⟨happend.symm, hlen⟩
    · exact absurd hsplit (by simp)
  · rintro ⟨rfl, rfl⟩
    simp [splitAtByte_append]

/-- The bytes from `start` on and before `stop`, where a position counts the UTF-8 bytes in front of
it. -/
structure Span where
  start : Nat
  stop : Nat
deriving DecidableEq

namespace Span

/-- Each span begins before the other ends. Two non-empty spans overlap when they share a byte. -/
def overlaps (a b : Span) : Bool :=
  a.start < b.stop && b.start < a.stop

theorem overlaps_comm (a b : Span) : a.overlaps b = b.overlaps a :=
  Bool.and_comm _ _

/-- The span moved right by a number of bytes. -/
def shift (a : Span) (distance : Nat) : Span :=
  ⟨a.start + distance, a.stop + distance⟩

/-- Spans are ordered by their start, and where that is equal by their stop. -/
instance : Ord Span where
  compare a b := (compare a.start b.start).then (compare a.stop b.stop)

/-- The part of a text that a span covers. A span that is reversed, reaches beyond the text or cuts
a character covers nothing that could be named. -/
def slice? (a : Span) (text : List Char) : Option (List Char) :=
  if a.start ≤ a.stop then do
    let (_, rest) ← splitAtByte? a.start text
    let (front, _) ← splitAtByte? (a.stop - a.start) rest
    return front
  else
    none

end Span

end SqlTemplate
