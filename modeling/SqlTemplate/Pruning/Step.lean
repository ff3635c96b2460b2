import SqlTemplate.Clause
import SqlTemplate.Clause.UpperBound
import SqlTemplate.Keyword.FreeStanding
import SqlTemplate.Log
import SqlTemplate.Pruning.Edit

namespace SqlTemplate.Pruning

/-- What becomes of a clause. -/
inductive Decision where
  /-- It begins within a stretch that is removed already. -/
  | swallowed
  /-- It is removed, and with it the upper bound behind it, if it has one. -/
  | remove (upper? : Option UpperBound)
  /-- It is kept, and with it the connector at the span becomes `WHERE`, if there is one. -/
  | keep (promoted? : Option Span)
deriving DecidableEq

/-- A clause and what becomes of it. -/
structure Step where
  clause : Clause
  decision : Decision
deriving DecidableEq

namespace Step

/-- The changes that a step makes to the text. -/
def edits (step : Step) : List Edit :=
  match step.decision with
  | .swallowed => []
  | .remove none => [.remove step.clause.span]
  | .remove (some upper) => [.remove step.clause.span, .remove upper.span]
  | .keep promoted? => promoted?.toList.map .promote

/-- The names of the placeholders that a step removes. -/
def prunedNames (step : Step) : List String :=
  match step.decision with
  | .remove none => [step.clause.placeholder]
  | .remove (some upper) => [step.clause.placeholder, upper.placeholder]
  | .swallowed | .keep _ => []

/-- The log entry about a removed clause. -/
def removalEntry (clause : Clause) : LogEntry where
  level := .debug
  message := "pruning clause with null parameter"
  fields :=
    [("connector", clause.connector.keyword), ("column", clause.column),
      ("operator", clause.operator.token), ("placeholder", clause.placeholder)]

/-- The log entry about a removed upper bound. -/
def upperBoundEntry (upper : UpperBound) : LogEntry where
  level := .debug
  message := "pruning BETWEEN upper bound"
  fields := [("placeholder", upper.placeholder)]

/-- The log entry about a connector that becomes `WHERE`, with the connector as it is written. -/
def promotionEntry (text : List Char) (span : Span) : LogEntry where
  level := .debug
  message := "promoting connector to WHERE"
  fields := [("connector", String.ofList ((span.slice? text).getD []))]

/-- What a step reports. -/
def log (text : List Char) (step : Step) : List LogEntry :=
  match step.decision with
  | .swallowed => []
  | .remove upper? => removalEntry step.clause :: upper?.toList.map upperBoundEntry
  | .keep promoted? => promoted?.toList.map (promotionEntry text)

end Step

/-- What has been settled so far. -/
structure Progress where
  /-- The stretches that are removed or promoted. -/
  taken : List Span
  /-- Whether a clause with a `WHERE` was removed and no clause was kept since. -/
  owesWhere : Bool
  /-- The end of the last stretch that was removed. -/
  removedTo : Nat
deriving DecidableEq

namespace Progress

def start : Progress := ⟨[], false, 0⟩

/-- Decides about a clause. A kept clause that follows a removed `WHERE` promotes the first
free-standing `AND` or `OR` of the text that is not taken. -/
def decide (lacks : String → Bool) (text : List Char) (progress : Progress) (clause : Clause) :
    Decision :=
  if clause.span.start < progress.removedTo then
    .swallowed
  else if lacks clause.placeholder then
    .remove (if clause.operator = .between then upperBoundAt? text clause.span.stop else none)
  else
    .keep (if progress.owesWhere then firstJoiningOutside? progress.taken text else none)

/-- What is settled after a step. -/
def after (progress : Progress) (step : Step) : Progress :=
  match step.decision with
  | .swallowed => progress
  | .remove upper? =>
    { taken := step.edits.map Edit.span ++ progress.taken
      owesWhere := progress.owesWhere || step.clause.connector == .where_
      removedTo := (upper?.map fun upper => upper.span.stop).getD step.clause.span.stop }
  | .keep _ =>
    { progress with
      taken := step.edits.map Edit.span ++ progress.taken
      owesWhere := false }

end Progress

/-- The decisions about clauses, one after the other. -/
def stepsFrom (lacks : String → Bool) (text : List Char) : Progress → List Clause → List Step
  | _, [] => []
  | progress, clause :: rest =>
    let step : Step := ⟨clause, progress.decide lacks text clause⟩
    step :: stepsFrom lacks text (progress.after step) rest

/-- The decisions about all clauses of a template, from left to right, where `lacks` says which
names have no value. Every decision is made on the unedited text. The edits, the names that were
pruned and the log are views of the decisions. -/
def steps (lacks : String → Bool) (text : List Char) : List Step :=
  stepsFrom lacks text .start (clauses text)

end SqlTemplate.Pruning
