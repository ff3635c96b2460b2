import SqlTemplate.Bindings
import SqlTemplate.Pruning

namespace SqlTemplate

/-- A template and what has been bound to it so far. Building it prunes the template and keeps the
parameters that the pruned text still refers to. -/
structure Draft where
  template : String
  bindings : Bindings
  keepsNulls : Bool
deriving DecidableEq

/-- A pruned template and the parameters that it refers to. -/
structure Query where
  sql : String
  parameters : List Parameter
deriving DecidableEq

namespace Draft

/-- A draft with nothing bound. -/
def ofTemplate (template : String) : Draft where
  template
  bindings := .ofTemplate template.toList
  keepsNulls := false

/-- Binds a value to the next slot. A value for which no slot is left is ignored. -/
def bind (draft : Draft) (value : Value) : Draft :=
  match draft.bindings.bindNext value with
  | .ok bindings => { draft with bindings }
  | .error _ => draft

/-- What is reported when a value is bound. -/
def bindLog (draft : Draft) (value : Value) : List LogEntry :=
  match draft.bindings.bindNext value with
  | .ok _ => []
  | .error error => [⟨.warn, error.message, [("sql", draft.template)]⟩]

/-- Binds a parameter by its name. -/
def assign (draft : Draft) (p : Parameter) : Draft :=
  { draft with bindings := draft.bindings.assign p }

/-- Keeps every clause, whatever the values. -/
def keepNulls (draft : Draft) : Draft :=
  { draft with keepsNulls := true }

def get? (draft : Draft) (name : String) : Option Parameter :=
  draft.bindings.get? name

/-- The template without the clauses that lack a value. -/
def prune (draft : Draft) : Pruned :=
  SqlTemplate.prune draft.keepsNulls draft.bindings.lacks draft.template

end Draft

/-- The first parameter of each name. -/
def firstOfEachName : List Parameter → List Parameter
  | [] => []
  | p :: rest => p :: (firstOfEachName rest).filter fun q => q.name != p.name

/-- Prunes the template and keeps the first parameter of each name that occurs in what is left. -/
def Draft.build (draft : Draft) : Query :=
  let sql := draft.prune.sql
  let names := placeholderNames sql.toList
  { sql
    parameters := firstOfEachName (draft.bindings.slots.filter fun p => names.contains p.name) }

namespace Query

def get? (query : Query) (name : String) : Option Parameter :=
  query.parameters.find? fun p => p.name == name

def toJson (query : Query) : Json :=
  .object
    [("sql", .string query.sql), ("parameters", .array (query.parameters.map Parameter.toJson))]

end Query

end SqlTemplate
