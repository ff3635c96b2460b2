import SqlTemplate.Number.Binary64
import SqlTemplate.Number.Integer

namespace SqlTemplate

/-- The number `coefficient * 10 ^ exponent`. -/
structure Decimal where
  coefficient : Nat
  exponent : Int
deriving DecidableEq

namespace Decimal

/-- The digits of the coefficient. -/
def digits (d : Decimal) : List Char :=
  Nat.toDigits 10 d.coefficient

/-- The exponent of the first digit. -/
def leadingExponent (d : Decimal) : Int :=
  d.digits.length - 1 + d.exponent

/-- Leaves off the zeros at the end of the coefficient, at most `fuel` of them. -/
def normalizeWithin : Nat → Decimal → Decimal
  | 0, d => d
  | fuel + 1, d =>
    if d.coefficient ≠ 0 ∧ d.coefficient % 10 = 0 then
      normalizeWithin fuel ⟨d.coefficient / 10, d.exponent + 1⟩
    else
      d

/-- The same number with no zeros at the end of the coefficient. -/
def normalize (d : Decimal) : Decimal :=
  d.normalizeWithin d.digits.length

/-- The binary number nearest to a decimal one. A number whose first digit stands far beyond the
range of binary numbers is settled without computing the power of ten. -/
def toBinary64 (negative : Bool) (d : Decimal) : Binary64 :=
  if d.coefficient = 0 ∨ d.leadingExponent < -400 then
    .ofMagnitude negative 0
  else if 400 < d.leadingExponent then
    .infinity negative
  else
    .ofQuotient negative (d.coefficient * Nat.pow 10 d.exponent.toNat)
      (Nat.pow 10 (-d.exponent).toNat)

/-- Reads the exponent at the end of a numeral, which may be missing. -/
def readExponent? : List Char → Option Int
  | [] => some 0
  | mark :: rest => if mark = 'e' ∨ mark = 'E' then readInt? rest else none

/-- Reads a numeral without a sign: digits with a point among them or at either end, or with none,
and an exponent if there is one. At least one digit stands in front of the exponent. -/
def read? (text : List Char) : Option Decimal :=
  let whole := text.takeWhile Char.isDigit
  let rest := text.dropWhile Char.isDigit
  let (fraction, rest) :=
    match rest with
    | '.' :: rest => (rest.takeWhile Char.isDigit, rest.dropWhile Char.isDigit)
    | _ => ([], rest)
  if (whole ++ fraction).isEmpty then
    none
  else
    (readExponent? rest).map fun exponent =>
      ⟨readDigits (whole ++ fraction), exponent - fraction.length⟩

/-- How a format writes decimals. -/
structure Layout where
  /-- Whether a number whose first digit has this exponent is written without an exponent. -/
  isPositional : Int → Bool
  /-- What follows the digits of an integer that is written without an exponent. -/
  integerEnding : List Char

/-- All digits in their places, filled up with zeros as far as the decimal point. -/
def positional (integerEnding : List Char) (d : Decimal) : List Char :=
  let fractionDigits := (-d.exponent).toNat
  if fractionDigits = 0 then
    d.digits ++ List.replicate d.exponent.toNat '0' ++ integerEnding
  else
    let padded := List.replicate (fractionDigits + 1 - d.digits.length) '0' ++ d.digits
    let wholeDigits := padded.length - fractionDigits
    padded.take wholeDigits ++ '.' :: padded.drop wholeDigits

/-- One digit before the decimal point, and an exponent with its sign. -/
def scientific (d : Decimal) : List Char :=
  let fraction := d.digits.drop 1
  let exponent := d.leadingExponent
  d.digits.take 1 ++ (if fraction.isEmpty then [] else '.' :: fraction) ++
    'e' :: (if exponent < 0 then '-' else '+') :: Nat.toDigits 10 exponent.natAbs

def write (layout : Layout) (d : Decimal) : List Char :=
  if layout.isPositional d.leadingExponent then d.positional layout.integerEnding
  else d.scientific

end Decimal

end SqlTemplate
