import SqlTemplate.Text.Name

namespace SqlTemplate

/-- The keyword that introduces a clause of a filter or joins it to the clauses before it. It is
written in any case and has one canonical spelling. -/
inductive Connector where
  | where_
  | and
  | or
deriving DecidableEq

namespace Connector

def all : List Connector := [where_, and, or]

/-- The characters of the canonical spelling. -/
def letters : Connector → List Char
  | where_ => ['W', 'H', 'E', 'R', 'E']
  | and => ['A', 'N', 'D']
  | or => ['O', 'R']

/-- The canonical spelling. -/
def keyword (connector : Connector) : String :=
  String.ofList connector.letters

/-- The connector that a whole word spells. -/
def ofKeyword? (word : List Char) : Option Connector :=
  all.find? fun connector => sameIgnoringCase word connector.letters

/-- Takes a connector off the beginning of a text: the connector, its spelling there and what
follows. -/
def take? (text : List Char) : Option (Connector × List Char × List Char) :=
  all.findSome? fun connector =>
    (takeWord? connector.letters text).map fun (written, rest) => (connector, written, rest)

theorem eq_append_of_take? {text written rest : List Char} {connector : Connector}
    (htake : take? text = some (connector, written, rest)) :
    text = written ++ rest ∧ written.map foldedCapital = connector.letters := by
  obtain ⟨found, _, hfound⟩ := List.exists_of_findSome?_eq_some htake
  obtain ⟨⟨written', rest'⟩, hword, heq⟩ := Option.map_eq_some_iff.1 hfound
  simp only [Prod.mk.injEq] at heq
  obtain ⟨rfl, rfl, rfl⟩ := heq
  exact eq_append_of_takeWord? hword

end Connector

/-- The comparison between a column and a placeholder. It too is written in any case and has one
canonical spelling. -/
inductive Operator where
  | equal
  | less
  | greater
  | lessOrEqual
  | greaterOrEqual
  | is
  | between
  | like
deriving DecidableEq

namespace Operator

/-- All operators, a longer spelling before the one that it begins with. -/
def all : List Operator :=
  [lessOrEqual, greaterOrEqual, equal, less, greater, is, between, like]

/-- The characters of the canonical spelling. -/
def letters : Operator → List Char
  | equal => ['=']
  | less => ['<']
  | greater => ['>']
  | lessOrEqual => ['<', '=']
  | greaterOrEqual => ['>', '=']
  | is => ['I', 'S']
  | between => ['B', 'E', 'T', 'W', 'E', 'E', 'N']
  | like => ['L', 'I', 'K', 'E']

/-- The canonical spelling. -/
def token (operator : Operator) : String :=
  String.ofList operator.letters

/-- The operator that a whole word spells in ASCII. -/
def ofToken? (word : List Char) : Option Operator :=
  all.find? fun operator => sameIgnoringCase word operator.letters

/-- Takes the longest operator off the beginning of a text: its spelling there and what follows. -/
def take? (text : List Char) : Option (List Char × List Char) :=
  all.findSome? fun operator => takeWord? operator.letters text

theorem eq_append_of_take? {text written rest : List Char}
    (htake : take? text = some (written, rest)) : text = written ++ rest := by
  obtain ⟨_, _, hword⟩ := List.exists_of_findSome?_eq_some htake
  exact (eq_append_of_takeWord? hword).1

end Operator

end SqlTemplate
