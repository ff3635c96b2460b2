import SqlTemplate.Number.Integer
import SqlTemplate.Number.Shortest

namespace SqlTemplate

/-- A JSON tree. The members of an object are written in the order given. -/
inductive Json where
  | null
  | bool (b : Bool)
  | int (n : Int)
  | float (x : Binary64)
  | string (s : String)
  | array (elements : List Json)
  | object (members : List (String × Json))

namespace Json

/-- Numbers from 0.00001 up to below 10^16 are written without an exponent, and then always with a
fraction. What is no finite number is written as null. -/
def floatFormat : FloatFormat where
  tie := .even
  layout :=
    { isPositional := fun leading => -5 ≤ leading && leading ≤ 15
      integerEnding := ['.', '0'] }
  nan := ['n', 'u', 'l', 'l']
  infinity := ['n', 'u', 'l', 'l']
  negativeInfinity := ['n', 'u', 'l', 'l']

/-- A character inside a quoted string. Only the quote, the backslash and the control characters
below the blank are escaped. -/
def escape (c : Char) : List Char :=
  if c = '"' then ['\\', '"']
  else if c = '\\' then ['\\', '\\']
  else if c = '\x08' then ['\\', 'b']
  else if c = '\t' then ['\\', 't']
  else if c = '\n' then ['\\', 'n']
  else if c = '\x0C' then ['\\', 'f']
  else if c = '\r' then ['\\', 'r']
  else if c.toNat < 0x20 then ['\\', 'u', '0', '0'] ++ writeByte c.toUInt8
  else [c]

def quote (s : String) : List Char :=
  '"' :: s.toList.flatMap escape ++ ['"']

/-- How the elements of arrays and objects are set apart: what stands in front of an element at some
depth, and what between the colon and the value of a member. -/
structure Layout where
  lineBreak : Nat → List Char
  afterColon : List Char

/-- Nothing that is not needed. -/
def Layout.compact : Layout where
  lineBreak _ := []
  afterColon := []

/-- One element to a line, indented by two blanks for each level. -/
def Layout.indented : Layout where
  lineBreak depth := '\n' :: List.replicate (2 * depth) ' '
  afterColon := [' ']

/-- Texts with commas between them and brackets around them. Empty brackets hold no line break. -/
def enclose (layout : Layout) (depth : Nat) (left right : Char) : List (List Char) → List Char
  | [] => [left, right]
  | texts =>
    left :: List.intercalate [','] (texts.map (layout.lineBreak (depth + 1) ++ ·)) ++
      layout.lineBreak depth ++ [right]

mutual

/-- The text of a tree that stands inside `depth` arrays and objects. -/
def write (layout : Layout) (depth : Nat) : Json → List Char
  | .null => ['n', 'u', 'l', 'l']
  | .bool true => ['t', 'r', 'u', 'e']
  | .bool false => ['f', 'a', 'l', 's', 'e']
  | .int n => writeInt n
  | .float x => x.write floatFormat
  | .string s => quote s
  | .array elements =>
    enclose layout depth '[' ']' (writeElements layout (depth + 1) elements)
  | .object members =>
    enclose layout depth '\x7b' '\x7d' (writeMembers layout (depth + 1) members)

def writeElements (layout : Layout) (depth : Nat) : List Json → List (List Char)
  | [] => []
  | element :: rest => write layout depth element :: writeElements layout depth rest

def writeMembers (layout : Layout) (depth : Nat) : List (String × Json) → List (List Char)
  | [] => []
  | (key, value) :: rest =>
    (quote key ++ ':' :: layout.afterColon ++ write layout depth value) ::
      writeMembers layout depth rest

end

/-- The text of a tree without any white space between its parts. -/
def compact (json : Json) : String :=
  String.ofList (json.write .compact 0)

/-- The text of a tree with one element to a line. -/
def indented (json : Json) : String :=
  String.ofList (json.write .indented 0)

end Json

end SqlTemplate
