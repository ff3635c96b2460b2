import SqlTemplate.Parameter
import SqlTemplate.Placeholder

namespace SqlTemplate

/-- What can go wrong when a value is bound. -/
inductive BindingError where
  /-- Every slot is bound already. -/
  | noUnboundSlot (value : Value)
deriving DecidableEq

def BindingError.message : BindingError → String
  | noUnboundSlot value =>
    "no unbound parameter left for " ++ value.kind ++ " value " ++ value.literal

/-- The slots of a template, one for each occurrence of a placeholder, in the order in which values
are bound to them. A parameter that is assigned to a name takes the place of all slots of that name
and moves to the end. Nothing is assumed of the names, so one may have several slots. -/
structure Bindings where
  slots : List Parameter
deriving DecidableEq

namespace Bindings

/-- No slots at all. -/
def empty : Bindings := ⟨[]⟩

/-- The slots of a template, one for each occurrence of a placeholder and none of them bound. -/
def ofTemplate (text : List Char) : Bindings :=
  ⟨(placeholderNames text).map Parameter.unbound⟩

/-- Binds a value to the first slot that is not bound yet. -/
def bindFirst? (value : Value) : List Parameter → Option (List Parameter)
  | [] => none
  | slot :: rest =>
    if slot.bound then (bindFirst? value rest).map (slot :: ·)
    else some (slot.bind value :: rest)

/-- Binds a value to the next slot. -/
def bindNext (bindings : Bindings) (value : Value) : Except BindingError Bindings :=
  match bindFirst? value bindings.slots with
  | some slots => .ok ⟨slots⟩
  | none => .error (.noUnboundSlot value)

theorem bindFirst?_eq_none_iff {value : Value} {slots : List Parameter} :
    bindFirst? value slots = none ↔ ∀ slot ∈ slots, slot.bound := by
  induction slots with
  | nil => simp [bindFirst?]
  | cons slot rest ih =>
    unfold bindFirst?
    split
    · next hbound => simp [ih, hbound]
    · next hbound => simp [hbound]

/-- Binding the next value fails exactly when no slot is left. -/
theorem bindNext_eq_error_iff {bindings : Bindings} {value : Value} {error : BindingError} :
    bindings.bindNext value = .error error ↔
      (∀ slot ∈ bindings.slots, slot.bound) ∧ error = .noUnboundSlot value := by
  unfold bindNext
  cases hslots : bindFirst? value bindings.slots with
  | none =>
    have hall := bindFirst?_eq_none_iff.1 hslots
    constructor
    · intro herror
      exact ⟨hall, (Except.error.inj herror).symm⟩
    · rintro ⟨_, rfl⟩
      rfl
  | some slots =>
    constructor
    · intro herror
      cases herror
    · rintro ⟨hall, _⟩
      rw [bindFirst?_eq_none_iff.2 hall] at hslots
      cases hslots

/-- Puts a parameter in the place of all slots of its name, behind all other slots. From then on it
counts as bound. -/
def assign (bindings : Bindings) (p : Parameter) : Bindings :=
  ⟨bindings.slots.filter (fun slot => slot.name != p.name) ++ [{ p with bound := true }]⟩

/-- The first slot of a name. -/
def get? (bindings : Bindings) (name : String) : Option Parameter :=
  bindings.slots.find? fun slot => slot.name == name

/-- A parameter assigned to a name is what the name then refers to. -/
theorem get?_assign_self (bindings : Bindings) (p : Parameter) :
    (bindings.assign p).get? p.name = some { p with bound := true } := by
  have hgone : (bindings.slots.filter fun slot => slot.name != p.name).find?
      (fun slot => slot.name == p.name) = none := by
    simp [List.find?_eq_none]
  simp [get?, assign, List.find?_append, hgone]

/-- All other names keep what they referred to. -/
theorem get?_assign_of_ne (bindings : Bindings) {p : Parameter} {name : String}
    (hne : name ≠ p.name) : (bindings.assign p).get? name = bindings.get? name := by
  have hother : (p.name == name) = false := by simpa using hne.symm
  have hkept : (bindings.slots.filter fun slot => slot.name != p.name).find?
      (fun slot => slot.name == name) = bindings.slots.find? (fun slot => slot.name == name) := by
    induction bindings.slots with
    | nil => rfl
    | cons slot rest ih =>
      by_cases hslot : slot.name = p.name
      · have hskip : (slot.name == name) = false := by rw [hslot]; exact hother
        simp [hslot, hother, ih]
      · simp [hslot, List.find?_cons, ih]
  simp [get?, assign, List.find?_append, hkept, hother]

/-- Whether clauses that compare with a name are removed. A name without a slot is treated like one
that was never bound. -/
def lacks (bindings : Bindings) (name : String) : Bool :=
  (bindings.get? name).all Parameter.isPrunable

def size (bindings : Bindings) : Nat :=
  bindings.slots.length

def isEmpty (bindings : Bindings) : Bool :=
  bindings.slots.isEmpty

end Bindings

end SqlTemplate
