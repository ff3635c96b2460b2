namespace SqlTemplate

/-- A binary floating-point number: a sign bit, eleven exponent bits and 52 fraction bits. The bits
themselves are kept, so two numbers are equal exactly when their bits are. -/
structure Binary64 where
  bits : UInt64
deriving DecidableEq

namespace Binary64

/-- What the bits stand for. A finite number is `significand * 2 ^ exponent`, negated if need be. -/
inductive Shape where
  | nan
  | infinite (negative : Bool)
  | finite (negative : Bool) (significand : Nat) (exponent : Int)
deriving DecidableEq

/-- The exponent of the least significant bit of the numbers nearest to zero. -/
def leastExponent : Int := -1074

/-- The bits of positive infinity, above those of all finite positive numbers. -/
def infinityBits : Nat := 2047 * Nat.pow 2 52

def shape (x : Binary64) : Shape :=
  let n := x.bits.toNat
  let negative : Bool := Nat.pow 2 63 ≤ n
  let field : Nat := n / Nat.pow 2 52 % Nat.pow 2 11
  let fraction := n % Nat.pow 2 52
  if field = 2047 then
    if fraction = 0 then .infinite negative else .nan
  else if field = 0 then
    .finite negative fraction leastExponent
  else
    .finite negative (Nat.pow 2 52 + fraction) (leastExponent + field - 1)

/-- The number with the given sign whose other bits are `magnitude`. -/
def ofMagnitude (negative : Bool) (magnitude : Nat) : Binary64 :=
  ⟨UInt64.ofNat (if negative then Nat.pow 2 63 + magnitude else magnitude)⟩

def infinity (negative : Bool) : Binary64 :=
  ofMagnitude negative infinityBits

def nan : Binary64 :=
  ofMagnitude false (infinityBits + Nat.pow 2 51)

/-- The quotient rounded to the nearest natural number, and to the even one of two that are equally
near. -/
def roundQuotient (num den : Nat) : Nat :=
  let floor := num / den
  let twice := 2 * (num % den)
  if den < twice || (twice = den && floor % 2 = 1) then floor + 1 else floor

/-- The quotient `num / den * 2 ^ shift` as another quotient. -/
def scaleQuotient (num den : Nat) (shift : Int) : Nat × Nat :=
  (num * Nat.pow 2 shift.toNat, den * Nat.pow 2 (-shift).toNat)

/-- The greatest `k` for which `2 ^ k ≤ num / den`, for positive `num` and `den`. -/
def leadingBit (num den : Nat) : Int :=
  let guess : Int := (num.log2 : Int) - den.log2
  let (scaledNum, scaledDen) := scaleQuotient num den (-guess)
  if scaledDen ≤ scaledNum then guess else guess - 1

/-- The number nearest to a quotient, found in exact arithmetic, ties going to the one with an even
significand. A significand that rounds up to the next power of two carries into the exponent bits,
and a quotient too great for any finite number becomes infinity. -/
def ofQuotient (negative : Bool) (num den : Nat) : Binary64 :=
  if num = 0 then
    ofMagnitude negative 0
  else
    let exponent := max (leadingBit num den - 52) leastExponent
    let (scaledNum, scaledDen) := scaleQuotient num den (-exponent)
    let magnitude :=
      (exponent - leastExponent).toNat * Nat.pow 2 52 + roundQuotient scaledNum scaledDen
    ofMagnitude negative (min magnitude infinityBits)

end Binary64

/-- A binary floating-point number of 32 bits: a sign bit, eight exponent bits and 23 fraction
bits. -/
structure Binary32 where
  bits : UInt32
deriving DecidableEq

/-- The same number in 64 bits. -/
def Binary32.widen (x : Binary32) : Binary64 :=
  let n := x.bits.toNat
  let negative : Bool := Nat.pow 2 31 ≤ n
  let field : Nat := n / Nat.pow 2 23 % Nat.pow 2 8
  let fraction := n % Nat.pow 2 23
  if field = 255 then
    if fraction = 0 then .infinity negative else .nan
  else if field = 0 then
    .ofQuotient negative fraction (Nat.pow 2 149)
  else
    .ofQuotient negative ((Nat.pow 2 23 + fraction) * Nat.pow 2 (field - 1)) (Nat.pow 2 149)

end SqlTemplate
