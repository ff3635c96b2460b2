import SqlTemplate.Number.Decimal

namespace SqlTemplate

/-- Which of two equally near decimals is taken. -/
inductive TieRule where
  | up
  | even

/-- A positive number and the interval around it that rounds to it, all in units of `2 ^ unit`. The
ends belong to the interval if it is closed. -/
structure RoundingInterval where
  value : Nat
  low : Nat
  high : Nat
  unit : Int
  closed : Bool

namespace RoundingInterval

/-- The interval that rounds to `significand * 2 ^ exponent`. It reaches half way to the neighbours.
The lower neighbour of a power of two is nearer than the upper one, unless the significand has no
bit to spare. -/
def ofBinary (significand : Nat) (exponent : Int) : RoundingInterval :=
  let isPower := significand = Nat.pow 2 52 ∧ Binary64.leastExponent < exponent
  { value := 4 * significand
    low := 4 * significand - (if isPower then 1 else 2)
    high := 4 * significand + 2
    unit := exponent - 2
    closed := significand % 2 = 0 }

/-- The exponent of the first digit of the number. -/
def leadingExponent (i : RoundingInterval) : Int :=
  let num := i.value * Nat.pow 2 i.unit.toNat
  let den := Nat.pow 2 (-i.unit).toNat
  if den ≤ num then (Nat.toDigits 10 (num / den)).length - 1
  else -(Nat.toDigits 10 ((den - 1) / num)).length

/-- The multiple of `10 ^ grid` that lies in the interval and is nearest to the number, as the count
of grid steps. -/
def gridPoint? (tie : TieRule) (i : RoundingInterval) (grid : Int) : Option Nat :=
  let scale := Nat.pow 2 i.unit.toNat * Nat.pow 10 (-grid).toNat
  let step := Nat.pow 10 grid.toNat * Nat.pow 2 (-i.unit).toNat
  let inside (count : Nat) : Bool :=
    if i.closed then i.low * scale ≤ count * step && count * step ≤ i.high * scale
    else i.low * scale < count * step && count * step < i.high * scale
  let below := i.value * scale / step
  let above := below + 1
  if inside below then
    if inside above then
      match compare (2 * (i.value * scale)) ((below + above) * step), tie with
      | .lt, _ => some below
      | .gt, _ => some above
      | .eq, .up => some above
      | .eq, .even => some (if below % 2 = 0 then below else above)
    else
      some below
  else if inside above then
    some above
  else
    none

/-- The first point of the interval on the decimal grids from `10 ^ grid` down to finer ones. -/
def firstPoint? (tie : TieRule) (i : RoundingInterval) : Nat → Int → Option Decimal
  | 0, _ => none
  | grids + 1, grid =>
    match i.gridPoint? tie grid with
    | some count => some ⟨count, grid⟩
    | none => i.firstPoint? tie grids (grid - 1)

end RoundingInterval

/-- The shortest decimal that reads back as `significand * 2 ^ exponent`: the point of the coarsest
decimal grid that falls into the interval around the number, and of two such points the one nearer
to it. Seventeen digits are always enough. -/
def shortestDecimal (tie : TieRule) (significand : Nat) (exponent : Int) : Decimal :=
  if significand = 0 then
    ⟨0, 0⟩
  else
    let interval := RoundingInterval.ofBinary significand exponent
    match interval.firstPoint? tie 17 interval.leadingExponent with
    | some decimal => decimal.normalize
    | none => ⟨0, 0⟩

/-- How a format writes binary numbers. -/
structure FloatFormat where
  tie : TieRule
  layout : Decimal.Layout
  nan : List Char
  infinity : List Char
  negativeInfinity : List Char

/-- The text of a binary number in a format. -/
def Binary64.write (format : FloatFormat) (x : Binary64) : List Char :=
  match x.shape with
  | .nan => format.nan
  | .infinite negative => if negative then format.negativeInfinity else format.infinity
  | .finite negative significand exponent =>
    let text := (shortestDecimal format.tie significand exponent).write format.layout
    if negative then '-' :: text else text

end SqlTemplate
