import SqlTemplate.Query

namespace SqlTemplate

/-- An SQL text as a database takes it, with a question mark for each placeholder, and the values
for them in the same order. A name that occurs twice has its value given twice. -/
structure Statement where
  sql : String
  values : List Value
deriving DecidableEq

/-- What can go wrong when a query is made into a statement. -/
inductive StatementError where
  /-- A placeholder has no parameter, or one that nothing was bound to. -/
  | unboundParameter (name : String)
deriving DecidableEq

def StatementError.message : StatementError → String
  | unboundParameter name =>
    "parameter '" ++ name ++ "' is referenced by the query but was never bound"

namespace Query

/-- The value that was bound to a name. -/
def valueOf (query : Query) (name : String) : Except StatementError Value :=
  match query.get? name with
  | some p => if p.bound then .ok p.value else .error (.unboundParameter name)
  | none => .error (.unboundParameter name)

/-- Writes a question mark for every placeholder among the pieces of a text, and collects the values
in the order of the placeholders. Type casts are written as they are. -/
def positional (query : Query) :
    List (Piece ColonName) → Except StatementError (List Char × List Value)
  | [] => .ok ([], [])
  | .found _ (.placeholder name) :: rest => do
    let value ← query.valueOf (String.ofList name)
    let (sql, values) ← query.positional rest
    return ('?' :: sql, value :: values)
  | piece :: rest => do
    let (sql, values) ← query.positional rest
    return (piece.written ++ sql, values)

/-- Makes a query into a statement. The error names the first placeholder that has no value. -/
def toStatement (query : Query) : Except StatementError Statement := do
  let (sql, values) ← query.positional (ColonName.recogniser.pieces query.sql.toList)
  return ⟨String.ofList sql, values⟩

end Query

end SqlTemplate
