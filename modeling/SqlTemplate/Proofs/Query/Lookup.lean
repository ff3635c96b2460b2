import Mathlib.Data.List.Induction
import Mathlib.Logic.Function.Basic
import SqlTemplate.Proofs.Query.Slots

namespace SqlTemplate

namespace Bindings

/-- The slot of a placeholder, with the value that there is for it. -/
def slotFor (name : String) (value? : Option Value) : Parameter :=
  value?.elim (.unbound name) fun value => .assigned name value false

/-- The slots of names, bound to values in the same order as far as these reach. -/
def slotsFor : List String → List Value → List Parameter
  | [], _ => []
  | name :: names, values => slotFor name values.head? :: slotsFor names values.tail

section SlotsFor

variable {names : List String} {values : List Value}

theorem slotsFor_nil (names : List String) : slotsFor names [] = names.map .unbound := by
  induction names with
  | nil => rfl
  | cons name names ih => rw [slotsFor, List.map_cons, List.tail_nil, ih]; rfl

/-- Another value is bound to the slot behind those that have one. If there is none, it is lost. -/
theorem bindFirst?_slotsFor (names : List String) (values : List Value) (value : Value) :
    (bindFirst? value (slotsFor names values)).getD (slotsFor names values) =
      slotsFor names (values ++ [value]) := by
  induction names generalizing values with
  | nil => rfl
  | cons name names ih =>
    cases values with
    | nil => rfl
    | cons first values =>
      have hrest := ih values
      change ((bindFirst? value (slotsFor names values)).map (slotFor name (some first) :: ·)).getD
        (slotFor name (some first) :: slotsFor names values) =
          slotFor name (some first) :: slotsFor names (values ++ [value])
      rw [← hrest]
      cases bindFirst? value (slotsFor names values) <;> rfl

/-- Values beyond the number of names are of no account. -/
theorem slotsFor_take (names : List String) (values : List Value) :
    slotsFor names (values.take names.length) = slotsFor names values := by
  induction names generalizing values with
  | nil => rfl
  | cons name names ih =>
    cases values with
    | nil => rfl
    | cons value values =>
      rw [List.length_cons, List.take_succ_cons, slotsFor, slotsFor, List.tail_cons, List.tail_cons,
        ih]
      rfl

/-- The first slot of a name is that of its first place, and has the value of that number. -/
theorem find?_slotsFor (names : List String) (values : List Value) (name : String) :
    (slotsFor names values).find? (fun slot => slot.name == name) =
      (names.idxOf? name).map fun k => slotFor name values[k]? := by
  induction names generalizing values with
  | nil => rfl
  | cons first names ih =>
    have hname : (slotFor first values.head?).name = first := by
      cases values.head? <;> rfl
    rw [slotsFor, List.find?_cons, hname, List.idxOf?_cons]
    by_cases hfirst : first = name
    · subst hfirst
      rw [beq_self_eq_true, if_pos rfl, Option.map_some, List.head?_eq_getElem?]
    · have hshift : ∀ k, values.tail[k]? = values[k + 1]? := fun k => List.getElem?_tail
      simp only [beq_eq_false_iff_ne.2 hfirst, Bool.false_eq_true, if_false, ih, hshift,
        Option.map_map, Function.comp_def]

end SlotsFor

/-- What names refer to, given what they referred to before a parameter was assigned. -/
def reassign (lookup : String → Option Parameter) (p : Parameter) : String → Option Parameter :=
  Function.update lookup p.name (some { p with bound := true })

/-- Assigning a parameter changes what its name refers to, and nothing else. -/
theorem get?_assign (bindings : Bindings) (p : Parameter) :
    (bindings.assign p).get? = reassign bindings.get? p := by
  funext name
  rw [reassign]
  by_cases hsame : name = p.name
  · rw [hsame, get?_assign_self, Function.update_self]
  · rw [get?_assign_of_ne bindings hsame, Function.update_of_ne hsame]

end Bindings

namespace Draft

theorem run_append (draft : Draft) (calls calls' : List Call) :
    draft.run (calls ++ calls') = (draft.run calls).run calls' :=
  List.foldl_append

theorem run_concat (draft : Draft) (calls : List Call) (call : Call) :
    draft.run (calls ++ [call]) = call.apply (draft.run calls) :=
  run_append draft calls [call]

/-- Binding a value changes the slots only, and those only if one of them is free. -/
theorem bind_eq_getD (draft : Draft) (value : Value) :
    draft.bind value = { draft with
      bindings := ⟨(Bindings.bindFirst? value draft.bindings.slots).getD draft.bindings.slots⟩ } := by
  rw [bind_eq]
  cases Bindings.bindFirst? value draft.bindings.slots <;> rfl

/-- Values bound in order belong to the placeholders of the template in order. -/
theorem run_bind (template : String) (values : List Value) :
    (ofTemplate template).run (values.map .bind) =
      ⟨template, ⟨Bindings.slotsFor (placeholderNames template.toList) values⟩, false⟩ := by
  induction values using List.reverseRecOn with
  | nil =>
    rw [Bindings.slotsFor_nil]
    rfl
  | append_singleton values value ih =>
    rw [List.map_append, List.map_singleton, run_concat, ih, Call.apply, bind_eq_getD,
      Bindings.bindFirst?_slotsFor]

theorem get?_run_bind (template : String) (values : List Value) (name : String) :
    ((ofTemplate template).run (values.map .bind)).get? name =
      ((placeholderNames template.toList).idxOf? name).map fun k =>
        Bindings.slotFor name values[k]? := by
  rw [run_bind]
  exact Bindings.find?_slotsFor _ _ _

/-- Parameters that are assigned take over their names, one after the other. -/
theorem get?_run_assign (draft : Draft) (ps : List Parameter) :
    (draft.run (ps.map .assign)).get? = ps.foldl Bindings.reassign draft.get? := by
  induction ps generalizing draft with
  | nil => rfl
  | cons p ps ih =>
    have hfirst : (draft.assign p).get? = Bindings.reassign draft.get? p :=
      Bindings.get?_assign draft.bindings p
    rw [List.foldl_cons, ← hfirst]
    exact ih (draft.assign p)

/-- A name refers to the last parameter that was assigned to it, or else to what it referred to
before. -/
theorem get?_run_assign_eq (draft : Draft) (ps : List Parameter) (name : String) :
    (draft.run (ps.map .assign)).get? name =
      ((ps.reverse.find? fun p => p.name == name).map fun p => { p with bound := true }).or
        (draft.get? name) := by
  induction ps using List.reverseRecOn with
  | nil => rfl
  | append_singleton ps p ih =>
    rw [get?_run_assign, List.foldl_append, ← get?_run_assign, List.reverse_append,
      List.reverse_singleton, List.singleton_append, List.find?_cons, List.foldl_cons,
      List.foldl_nil, Bindings.reassign]
    by_cases hlast : p.name = name
    · subst hlast
      rw [Function.update_self, beq_self_eq_true]
      rfl
    · rw [Function.update_of_ne (Ne.symm hlast), ih, beq_eq_false_iff_ne.2 hlast]

end Draft

end SqlTemplate
