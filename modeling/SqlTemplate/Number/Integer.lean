namespace SqlTemplate

/-- An integer in decimal digits, with a minus sign if it is negative. -/
def writeInt (n : Int) : List Char :=
  if n < 0 then '-' :: Nat.toDigits 10 n.natAbs else Nat.toDigits 10 n.natAbs

/-- Takes a sign off the beginning of a numeral: whether it is a minus sign, and the rest. -/
def takeSign : List Char → Bool × List Char
  | '-' :: rest => (true, rest)
  | '+' :: rest => (false, rest)
  | rest => (false, rest)

/-- The number that decimal digits stand for. -/
def readDigits (digits : List Char) : Nat :=
  Nat.ofDigitChars 10 digits 0

/-- The integer that a text stands for: at most one sign, at least one digit and nothing else. -/
def readInt? (text : List Char) : Option Int :=
  let (negative, digits) := takeSign text
  if digits ≠ [] ∧ digits.all Char.isDigit then
    some (if negative then -(readDigits digits : Int) else readDigits digits)
  else
    none

theorem readDigits_toDigits (n : Nat) : readDigits (Nat.toDigits 10 n) = n :=
  Nat.ofDigitChars_ten_toDigits

theorem all_isDigit_toDigits (n : Nat) : (Nat.toDigits 10 n).all Char.isDigit := by
  rw [List.all_eq_true]
  exact fun _ hmem => Nat.isDigit_of_mem_toDigits (by decide) (by decide) hmem

theorem takeSign_toDigits (n : Nat) :
    takeSign (Nat.toDigits 10 n) = (false, Nat.toDigits 10 n) := by
  have hall := all_isDigit_toDigits n
  unfold takeSign
  split
  · next heq => simp [heq] at hall
  · next heq => simp [heq] at hall
  · rfl

/-- Every integer reads back from what is written for it. -/
theorem readInt?_writeInt (n : Int) : readInt? (writeInt n) = some n := by
  by_cases hneg : n < 0
  · have habs : -(n.natAbs : Int) = n := by omega
    simp only [readInt?, writeInt, if_pos hneg, takeSign, readDigits_toDigits,
      all_isDigit_toDigits, ne_eq, Nat.toDigits_ne_nil, not_false_eq_true, and_self, if_true, habs]
  · have habs : (n.natAbs : Int) = n := by omega
    simp only [readInt?, writeInt, if_neg hneg, takeSign_toDigits, readDigits_toDigits,
      all_isDigit_toDigits, ne_eq, Nat.toDigits_ne_nil, not_false_eq_true, and_self, if_true, habs,
      Bool.false_eq_true, if_false]

/-- A byte as two hexadecimal digits. The digits above nine are letters of lower case. -/
def writeByte (byte : UInt8) : List Char :=
  [Nat.digitChar (byte.toNat / 16), Nat.digitChar (byte.toNat % 16)]

end SqlTemplate
