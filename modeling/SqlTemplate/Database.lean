import SqlTemplate.Statement
import SqlTemplate.Text.Blank

namespace SqlTemplate

/-- What a database reports where it fails: a text, and the texts of what that came from, the
nearest cause first. -/
structure DatabaseError where
  message : String
  causes : List String
deriving DecidableEq

/-- A database, as far as a program has to do with it. Nothing is said about what it makes of a
statement: that is for whoever supplies one. -/
structure Database where
  /-- The rows that a statement yields. -/
  fetchAll : Statement → Except DatabaseError (List (List Value))
  /-- How many rows a statement changes. -/
  execute : Statement → Except DatabaseError Nat

namespace Statement

/-- The first word of the text. -/
def firstWord (statement : Statement) : List Char :=
  (trimStart statement.sql.toList).takeWhile fun c => !isBlank c

/-- Whether the first word is this one, in any case. -/
def beginsWith (statement : Statement) (word : String) : Bool :=
  sameIgnoringCase statement.firstWord word.toList

/-- Whether the statement yields rows, going by its first word. -/
def yieldsRows (statement : Statement) : Bool :=
  ["SELECT", "WITH", "VALUES", "PRAGMA"].any statement.beginsWith

end Statement

/-- Runs a statement and tells how many rows there were. A statement that does not begin like one
that yields rows is only executed. -/
def Database.summary (database : Database) (statement : Statement) :
    Except DatabaseError String := do
  if statement.yieldsRows then
    return toString (← database.fetchAll statement).length ++ " row(s)"
  else
    return toString (← database.execute statement) ++ " row(s) affected"

end SqlTemplate
