import SqlTemplate.Text.Blank
import SqlTemplate.Text.Name
import SqlTemplate.Value

namespace SqlTemplate

/-- The integers that a value can hold. -/
def fitsInt64 (n : Int) : Bool :=
  Int64.minValue.toInt ≤ n && n ≤ Int64.maxValue.toInt

namespace Literal

/-- Reads an integer that a value can hold. -/
def integer? (text : List Char) : Option Value := do
  let n ← readInt? text
  if fitsInt64 n then some (.int (Int64.ofInt n)) else none

/-- Reads the names of the numbers that are not finite, behind an optional sign. -/
def nonFinite? (text : List Char) : Option Binary64 :=
  let (negative, name) := takeSign text
  if sameIgnoringCase name ['i', 'n', 'f'] ||
      sameIgnoringCase name ['i', 'n', 'f', 'i', 'n', 'i', 't', 'y'] then
    some (.infinity negative)
  else if sameIgnoringCase name ['n', 'a', 'n'] then
    some .nan
  else
    none

/-- A text may be a floating-point number if it begins with a digit, a minus sign or a point. So no
name of a number is one without a minus sign in front of it. -/
def beginsNumber (text : List Char) : Bool :=
  text.head?.any fun c => c.isDigit || c == '-' || c == '.'

/-- Reads a floating-point number. -/
def float? (text : List Char) : Option Value :=
  if beginsNumber text then
    match nonFinite? text with
    | some x => some (.float x)
    | none =>
      let (negative, numeral) := takeSign text
      (Decimal.read? numeral).map fun d => .float (d.toBinary64 negative)
  else
    none

/-- Reads a literal that has no blanks around it. -/
def trimmed? (text : List Char) : Option Value :=
  if sameIgnoringCase text ['n', 'u', 'l', 'l'] then
    some .null
  else
    match Quoted.unquote? text with
    | some inner => some (.text (String.ofList inner))
    | none =>
      if sameIgnoringCase text ['t', 'r', 'u', 'e'] then
        some (.bool true)
      else if sameIgnoringCase text ['f', 'a', 'l', 's', 'e'] then
        some (.bool false)
      else
        match integer? text with
        | some value => some value
        | none => float? text

end Literal

/-- The value that a literal stands for. `null`, `true`, `false`, numbers and text in single quotes
are recognised in any case of letters and with any blanks around them. All else is text as it
stands, blanks included. -/
def Value.ofLiteral (text : List Char) : Value :=
  (Literal.trimmed? (trim text)).getD (.text (String.ofList text))

end SqlTemplate
