import SqlTemplate.Pruning.Step
import SqlTemplate.Text.Blank

namespace SqlTemplate

/-- A pruned template, the names of the placeholders whose clauses were removed, in text order, and
what was reported on the way. -/
structure Pruned where
  sql : String
  names : List String
  log : List LogEntry
deriving DecidableEq

namespace Pruned

/-- Keeps every clause. -/
def keepingAll (template : String) : Pruned where
  sql := String.ofList (trim template.toList)
  names := []
  log := [⟨.debug, "nulls allowed, keeping every clause", []⟩]

/-- Removes the clauses that compare with a name that has no value, as `lacks` says. -/
def removing (lacks : String → Bool) (template : String) : Pruned :=
  let text := template.toList
  let steps := Pruning.steps lacks text
  { sql := String.ofList (trim (Edit.applyAll (steps.flatMap Pruning.Step.edits) text))
    names := steps.flatMap Pruning.Step.prunedNames
    log := steps.flatMap (Pruning.Step.log text) }

end Pruned

/-- Prunes a template. Clauses that compare with a parameter without a value are left out, and where
the clause that carried the `WHERE` goes, the connector of another one becomes `WHERE`. Where nulls
are kept nothing is removed. -/
def prune (keepsNulls : Bool) (lacks : String → Bool) (template : String) : Pruned :=
  if keepsNulls then .keepingAll template else .removing lacks template

end SqlTemplate
