import SqlTemplate.Value

namespace SqlTemplate

/-- A named slot for a value. A slot that was never bound holds `null`. A null value removes the
clauses that compare with the parameter, unless the parameter accepts null. -/
structure Parameter where
  name : String
  value : Value
  acceptsNull : Bool
  bound : Bool
deriving DecidableEq

namespace Parameter

/-- A slot that nothing is bound to yet. -/
def unbound (name : String) : Parameter :=
  { name, value := .null, acceptsNull := false, bound := false }

/-- A slot with a value. -/
def assigned (name : String) (value : Value) (acceptsNull : Bool) : Parameter :=
  { name, value, acceptsNull, bound := true }

/-- Binds a value to the slot, a null one too. -/
def bind (p : Parameter) (value : Value) : Parameter :=
  { p with value, bound := true }

/-- Whether the value is absent. -/
def isNull (p : Parameter) : Bool :=
  p.value.isNull

/-- Whether clauses that compare with the parameter are removed. -/
def isPrunable (p : Parameter) : Bool :=
  p.isNull && !p.acceptsNull

/-- The parameter as a JSON object, which does not tell whether it was bound. -/
def toJson (p : Parameter) : Json :=
  .object [("name", .string p.name), ("value", p.value.toJson), ("accepts_null", .bool p.acceptsNull)]

end Parameter

end SqlTemplate
