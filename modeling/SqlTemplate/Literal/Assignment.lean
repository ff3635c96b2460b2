import SqlTemplate.Literal
import SqlTemplate.Parameter

namespace SqlTemplate

/-- A name and the value that it is given: `NAME=LITERAL`, or a name alone for a null value. -/
structure Assignment where
  name : String
  value : Value
deriving DecidableEq

/-- What can go wrong when an assignment is read. -/
inductive AssignmentError where
  | missingValue (text : String)
  | emptyName
deriving DecidableEq

def AssignmentError.message : AssignmentError → String
  | missingValue text => "expected NAME=VALUE, got '" ++ text ++ "'"
  | emptyName => "parameter name must not be empty"

namespace Assignment

/-- What stands on either side of the first equals sign. -/
def splitAtEquals? (text : List Char) : Option (List Char × List Char) :=
  match text.dropWhile (· != '=') with
  | [] => none
  | _ :: value => some (text.takeWhile (· != '='), value)

/-- The name in a text: the text without the blanks at its ends, and then without the colons that it
begins with. -/
def nameOf (text : List Char) : Except AssignmentError String :=
  match (trim text).dropWhile (· == ':') with
  | [] => .error .emptyName
  | name => .ok (String.ofList name)

/-- Reads `NAME=LITERAL`. -/
def parse (text : List Char) : Except AssignmentError Assignment :=
  match splitAtEquals? text with
  | some (name, value) => do return ⟨← nameOf name, .ofLiteral value⟩
  | none => .error (.missingValue (String.ofList text))

/-- Reads `NAME=LITERAL`, or a name alone, which is given null. -/
def parseOrNull (text : List Char) : Except AssignmentError Assignment :=
  match splitAtEquals? text with
  | some (name, value) => do return ⟨← nameOf name, .ofLiteral value⟩
  | none => do return ⟨← nameOf text, .null⟩

/-- The parameter that an assignment makes. -/
def toParameter (assignment : Assignment) (acceptsNull : Bool) : Parameter :=
  .assigned assignment.name assignment.value acceptsNull

end Assignment

end SqlTemplate
