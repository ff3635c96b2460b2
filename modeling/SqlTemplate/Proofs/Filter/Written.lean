import SqlTemplate.Proofs.Clause.Places

namespace SqlTemplate

open Connector

/-- No connector stands free in a text. -/
def HoldsNoConnector (text : List Char) : Prop :=
  ∀ front word rest connector, text = front ++ word ++ rest → Spells word connector →
    ¬ StandsFree front rest

namespace Filter

/-- How a comparison with `BETWEEN` goes on: blanks, an `AND` and a placeholder. -/
structure Bound where
  blanks : List Char
  keyword : List Char
  name : List Char
  blanks_ne_nil : blanks ≠ []
  isBlank : ∀ c ∈ blanks, isBlank c
  spells : Spells keyword .and
  isName : IsName isFoldedLetter name

namespace Bound

/-- The bound without the blanks in front of it. -/
def stretch (bound : Bound) : List Char :=
  bound.keyword ++ ' ' :: ':' :: bound.name

def written (bound : Bound) : List Char :=
  bound.blanks ++ bound.stretch

end Bound

/-- A comparison of a column with a placeholder, and the upper bound behind a `BETWEEN`. -/
structure Compared where
  column : List Char
  operator : Operator
  comparison : Clause.Comparison
  bound? : Option Bound
  isPath : Clause.IsPathFrom false column
  blanksBefore : ∀ c ∈ comparison.blanksBefore, isBlank c
  sameOperator : sameIgnoringCase comparison.operator operator.letters
  blanksAfter : ∀ c ∈ comparison.blanksAfter, isBlank c
  isName : IsName isFoldedLetter comparison.placeholder
  between : bound?.isSome → operator = .between

/-- A comparison of a column with an integer. -/
structure Constant where
  column : List Char
  operator : Operator
  token : List Char
  sign : List Char
  digits : List Char
  isPath : Clause.IsPathFrom false column
  sameOperator : sameIgnoringCase token operator.letters
  isSign : sign = [] ∨ sign = ['-']
  digits_ne_nil : digits ≠ []
  isDigit : ∀ c ∈ digits, c.isDigit

/-- A condition of a filter: a comparison with a placeholder, which is a clause of the template, or
one with an integer, which is none. -/
inductive Condition where
  | compared (compared : Compared)
  | constant (constant : Constant)

namespace Compared

/-- The name that decides whether the comparison survives. -/
def placeholder (compared : Compared) : String :=
  String.ofList compared.comparison.placeholder

/-- The blanks that are left where the comparison is removed: those in front of its bound. -/
def leftover (compared : Compared) : List Char :=
  (compared.bound?.map Bound.blanks).getD []

def boundWritten (compared : Compared) : List Char :=
  (compared.bound?.map Bound.written).getD []

/-- The names that go with the comparison. -/
def names (compared : Compared) : List String :=
  compared.placeholder :: compared.bound?.toList.map fun bound => String.ofList bound.name

end Compared

namespace Condition

def written : Condition → List Char
  | compared c => c.column ++ c.comparison.written ++ c.boundWritten
  | constant c => c.column ++ ' ' :: c.token ++ ' ' :: (c.sign ++ c.digits)

/-- Whether the condition is a clause of the template. -/
def isCompared : Condition → Bool
  | compared _ => true
  | constant _ => false

/-- Whether the condition stays, where `lacks` says which names have no value. -/
def survives (lacks : String → Bool) : Condition → Bool
  | compared c => !lacks c.placeholder
  | constant _ => true

def leftover : Condition → List Char
  | compared c => c.leftover
  | constant _ => []

def names : Condition → List String
  | compared c => c.names
  | constant _ => []

end Condition

/-- A condition with the connector in front of it. -/
structure Joined where
  connector : Connector
  keyword : List Char
  condition : Condition
  spells : Spells keyword connector

namespace Joined

def written (joined : Joined) : List Char :=
  joined.keyword ++ ' ' :: joined.condition.written

/-- The conditions behind the first one, each behind a space. -/
def writtenAll (others : List Joined) : List Char :=
  others.flatMap fun joined => ' ' :: joined.written

/-- What pruning should make of conditions: those without a value go together with their connectors.
If the `WHERE` in front of them went too, the first one that stays gets it. -/
def repaired (lacks : String → Bool) : Bool → List Joined → List Char
  | _, [] => []
  | owes, joined :: rest =>
    if joined.condition.survives lacks then
      ' ' :: ((if owes then where_.letters else joined.keyword) ++
        ' ' :: joined.condition.written) ++ repaired lacks false rest
    else
      ' ' :: joined.condition.leftover ++ repaired lacks owes rest

/-- The names that pruning removes with a condition. -/
def removedNames (lacks : String → Bool) (joined : Joined) : List String :=
  if joined.condition.survives lacks then [] else joined.condition.names

/-- Whether the condition is a clause that is kept. -/
def isKeptClause (lacks : String → Bool) (joined : Joined) : Bool :=
  joined.condition.isCompared && joined.condition.survives lacks

end Joined

end Filter

/-- A flat filter in a text. Nothing in front of it reads like a connector, no colon stands behind
it, and it does not touch the words on either side. -/
structure Filter where
  before : List Char
  first : Filter.Joined
  others : List Filter.Joined
  after : List Char
  endsBlank : ∀ init c, before = init ++ [c] → isBlank c
  holdsNone : HoldsNoConnector before
  isWhere : first.connector = .where_
  isJoining : ∀ joined ∈ others, joined.connector ≠ .where_
  noColon : ':' ∉ after
  endsName : EndsName isFoldedLetter after

namespace Filter

def written (filter : Filter) : List Char :=
  filter.before ++ filter.first.written ++ Joined.writtenAll filter.others ++ filter.after

/-- The text around the conditions, the first one of which stays or goes, as the others are written
in `rest`. -/
def around (filter : Filter) (lacks : String → Bool) (rest : List Char) : List Char :=
  filter.before ++
    (if filter.first.condition.survives lacks then filter.first.written
      else filter.first.condition.leftover) ++ rest ++ filter.after

/-- What pruning should make of a filter: the conditions without a value are gone, and `WHERE`
stands in front of the first one that is left. -/
def repaired (filter : Filter) (lacks : String → Bool) : List Char :=
  filter.around lacks
    (Joined.repaired lacks (!filter.first.condition.survives lacks) filter.others)

/-- The names of the conditions that pruning removes. -/
def removedNames (filter : Filter) (lacks : String → Bool) : List String :=
  (filter.first :: filter.others).flatMap (Joined.removedNames lacks)

end Filter

end SqlTemplate
