import SqlTemplate.CommandLine.Invocation
import SqlTemplate.Proofs.Query.Lookup

namespace SqlTemplate.CommandLine

/-- The last assignment to a name. -/
def lastAssignment? (name : String) (assignments : List Assignment) : Option Assignment :=
  assignments.reverse.find? fun assignment => assignment.name == name

/-- What is found for a name from the end of the parameters that assignments make. -/
theorem find?_toParameter (assignments : List Assignment) (acceptsNull : Bool) (name : String) :
    ((assignments.map fun assignment => assignment.toParameter acceptsNull).reverse.find?
        fun p => p.name == name).map (fun p => { p with bound := true }) =
      (lastAssignment? name assignments).map fun assignment =>
        .assigned name assignment.value acceptsNull := by
  rw [← List.map_reverse, List.find?_map, Option.map_map, lastAssignment?]
  apply Option.map_congr
  intro assignment hfound
  change assignments.reverse.find? (fun assignment => assignment.name == name) = _ at hfound
  have hname := List.find?_some hfound
  rw [← eq_of_beq hname]
  rfl

namespace Invocation

/-- The values that are bound in order. -/
def values (invocation : Invocation) : List Value :=
  invocation.literals.map fun literal => .ofLiteral literal.toList

/-- The draft before it is settled whether nulls are kept. -/
def bound (invocation : Invocation) (template : String) : Draft :=
  (((Draft.ofTemplate template).run (invocation.values.map .bind)).run
    ((invocation.assignments.map fun assignment => assignment.toParameter false).map .assign)).run
      ((invocation.nullableAssignments.map fun assignment => assignment.toParameter true).map .assign)

theorem draft_eq (invocation : Invocation) (template : String) :
    invocation.draft template =
      if invocation.keepsNulls then (invocation.bound template).keepNulls
      else invocation.bound template := by
  simp only [draft, bound, values, Draft.run, List.foldl_map]
  rfl

/-- The parameter that a command line gives a name. Assignments that accept null come before the
others, and of each kind the last. Without one, the first placeholder of the name decides: it has
the literal of its number, if there are as many. -/
def parameter? (invocation : Invocation) (template name : String) : Option Parameter :=
  match lastAssignment? name invocation.nullableAssignments,
    lastAssignment? name invocation.assignments with
  | some assignment, _ => some (.assigned name assignment.value true)
  | none, some assignment => some (.assigned name assignment.value false)
  | none, none =>
    ((placeholderNames template.toList).idxOf? name).map fun k =>
      match invocation.literals[k]? with
      | some literal => .assigned name (.ofLiteral literal.toList) false
      | none => .unbound name

theorem get?_bound (invocation : Invocation) (template name : String) :
    (invocation.bound template).get? name = invocation.parameter? template name := by
  have hslot : ∀ k : Nat, Bindings.slotFor name invocation.values[k]? =
      match invocation.literals[k]? with
      | some literal => .assigned name (.ofLiteral literal.toList) false
      | none => .unbound name := by
    intro k
    rw [values, List.getElem?_map]
    cases invocation.literals[k]? <;> rfl
  rw [bound, Draft.get?_run_assign_eq, Draft.get?_run_assign_eq, Draft.get?_run_bind,
    find?_toParameter, find?_toParameter, parameter?]
  simp only [hslot]
  cases lastAssignment? name invocation.nullableAssignments with
  | some assignment => rfl
  | none => cases lastAssignment? name invocation.assignments <;> rfl

/-- What a name refers to once a command line is carried out is settled by precedence, for every
name and however many bindings there are. Literals beyond the number of placeholders change nothing.
-/
theorem get?_draft_by_precedence (invocation : Invocation) (template : String) :
    (∀ name, (invocation.draft template).get? name = invocation.parameter? template name) ∧
      ({ invocation with
        literals := invocation.literals.take (placeholderNames template.toList).length }).draft
          template = invocation.draft template := by
  constructor
  · intro name
    rw [← get?_bound, draft_eq]
    split <;> rfl
  · have hvalues : ({ invocation with
        literals := invocation.literals.take (placeholderNames template.toList).length }).values =
          invocation.values.take (placeholderNames template.toList).length := List.map_take
    rw [draft_eq, draft_eq, bound, bound, hvalues, Draft.run_bind, Draft.run_bind,
      Bindings.slotsFor_take]

/-- Of two assignments the last, and a literal for every place, also for those of one name. -/
example :
    let invocation : Invocation :=
      { command := .prune .text
        source := .text ":a :b :a :c :d"
        literals := ["1", "2", "3", "4"]
        assignments := [⟨"b", .int 5⟩, ⟨"b", .int 6⟩]
        nullableAssignments := [⟨"z", .null⟩]
        keepsNulls := false
        verbose := false }
    let draft := invocation.draft ":a :b :a :c :d"
    draft.get? "a" = some (.assigned "a" (.int 1) false) ∧
      draft.get? "b" = some (.assigned "b" (.int 6) false) ∧
      draft.get? "c" = some (.assigned "c" (.int 4) false) ∧
      draft.get? "d" = some (.unbound "d") ∧
      draft.get? "z" = some (.assigned "z" .null true) := by
  decide +kernel

end Invocation

end SqlTemplate.CommandLine
