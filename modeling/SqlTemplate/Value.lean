import SqlTemplate.Json
import SqlTemplate.Text.Quoted

namespace SqlTemplate

/-- A value of a parameter, which is written as an SQL literal or as JSON. `null` stands for the
absence of a value. -/
inductive Value where
  | null
  | bool (b : Bool)
  | int (n : Int64)
  | float (x : Binary64)
  | text (s : String)
  | blob (bytes : List UInt8)
deriving DecidableEq

namespace Value

def isNull : Value → Bool
  | null => true
  | _ => false

/-- What sort of value it is, as messages name it. -/
def kind : Value → String
  | null => "null"
  | bool _ => "bool"
  | int _ => "int"
  | float _ => "float"
  | text _ => "text"
  | blob _ => "blob"

/-- Numbers are written out in full, without an exponent and without an empty fraction. -/
def floatFormat : FloatFormat where
  tie := .up
  layout :=
    { isPositional := fun _ => true
      integerEnding := [] }
  nan := ['N', 'a', 'N']
  infinity := ['i', 'n', 'f']
  negativeInfinity := ['-', 'i', 'n', 'f']

/-- The characters of a value written as an SQL literal. -/
def literalChars : Value → List Char
  | null => ['N', 'U', 'L', 'L']
  | bool true => ['t', 'r', 'u', 'e']
  | bool false => ['f', 'a', 'l', 's', 'e']
  | int n => writeInt n.toInt
  | float x => x.write floatFormat
  | text s => Quoted.quote s.toList
  | blob bytes =>
    'X' :: '\'' :: (bytes.flatMap writeByte).map Char.toUpper ++ ['\'']

/-- A value written as an SQL literal. -/
def literal (value : Value) : String :=
  String.ofList value.literalChars

/-- A value as a JSON tree. A blob becomes the array of its bytes. -/
def toJson : Value → Json
  | null => .null
  | bool b => .bool b
  | int n => .int n.toInt
  | float x => .float x
  | text s => .string s
  | blob bytes => .array (bytes.map fun byte => .int byte.toNat)

end Value

end SqlTemplate
