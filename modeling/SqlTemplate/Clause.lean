import SqlTemplate.Clause.Reading

namespace SqlTemplate

/-- A comparison of a column with a placeholder. Its span reaches from the connector to the end of
the placeholder. -/
structure Clause where
  span : Span
  connector : Connector
  column : String
  operator : Operator
  placeholder : String
deriving DecidableEq

namespace Clause

/-- What a reading at a span means, if its operator is spelled in ASCII. -/
def ofMatch? (found : Match Reading) : Option Clause :=
  (Operator.ofToken? found.value.comparison.operator).map fun operator =>
    { span := found.span
      connector := found.value.connector
      column := String.ofList found.value.column
      operator
      placeholder := String.ofList found.value.comparison.placeholder }

end Clause

/-- The clauses of a template from left to right, without overlap. What has a long s or a Kelvin
sign in its operator takes its place in the text but is none of them. -/
def clauses (text : List Char) : List Clause :=
  (Clause.recogniser.scan text).filterMap Clause.ofMatch?

end SqlTemplate
