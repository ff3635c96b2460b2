import Mathlib.Data.List.Basic
import Mathlib.Data.List.Induction
import SqlTemplate.Bindings

namespace SqlTemplate

/-- The last parameter of each name, in the order in which these stand. -/
def lastOfEachName : List Parameter → List Parameter
  | [] => []
  | p :: rest =>
    if rest.any fun q => q.name == p.name then lastOfEachName rest else p :: lastOfEachName rest

section LastOfEachName

theorem lastOfEachName_cons (p : Parameter) (rest : List Parameter) :
    lastOfEachName (p :: rest) =
      if p.name ∈ rest.map Parameter.name then lastOfEachName rest
      else p :: lastOfEachName rest := by
  rw [lastOfEachName]
  congr 1
  simp

theorem lastOfEachName_sublist (ps : List Parameter) : (lastOfEachName ps).Sublist ps := by
  induction ps with
  | nil => exact .slnil
  | cons p rest ih =>
    rw [lastOfEachName_cons]
    split
    · exact ih.cons p
    · exact ih.cons_cons p

theorem nodup_map_name_lastOfEachName (ps : List Parameter) :
    ((lastOfEachName ps).map Parameter.name).Nodup := by
  induction ps with
  | nil => exact List.nodup_nil
  | cons p rest ih =>
    rw [lastOfEachName_cons]
    split
    · exact ih
    · next hlast =>
      rw [List.map_cons, List.nodup_cons]
      refine ⟨fun hmem => hlast ?_, ih⟩
      exact ((lastOfEachName_sublist rest).map Parameter.name).subset hmem

/-- The parameters stand in the order in which their names occurred for the last time. -/
theorem pairwise_lastOfEachName (ps : List Parameter) :
    (lastOfEachName ps).Pairwise fun p q =>
      (ps.map Parameter.name).reverse.idxOf q.name <
        (ps.map Parameter.name).reverse.idxOf p.name := by
  have hlater : ∀ (p : Parameter) (rest : List Parameter), ∀ q ∈ lastOfEachName rest,
      ((p :: rest).map Parameter.name).reverse.idxOf q.name =
        (rest.map Parameter.name).reverse.idxOf q.name := by
    intro p rest q hq
    have hmem : q.name ∈ (rest.map Parameter.name).reverse :=
      List.mem_reverse.2 (List.mem_map_of_mem ((lastOfEachName_sublist rest).subset hq))
    rw [List.map_cons, List.reverse_cons, List.idxOf_append_of_mem hmem]
  induction ps with
  | nil => exact .nil
  | cons p rest ih =>
    have hrest := ih.imp_of_mem fun hq hr hlt => by
      rwa [← hlater p rest _ hq, ← hlater p rest _ hr] at hlt
    rw [lastOfEachName_cons]
    split
    · exact hrest
    · next hlast =>
      refine .cons (fun q hq => ?_) hrest
      have hmem : q.name ∈ (rest.map Parameter.name).reverse :=
        List.mem_reverse.2 (List.mem_map_of_mem ((lastOfEachName_sublist rest).subset hq))
      rw [hlater p rest q hq, List.map_cons, List.reverse_cons,
        List.idxOf_append_of_notMem (by simpa using hlast)]
      exact Nat.lt_add_right _ (List.idxOf_lt_length_iff.2 hmem)

/-- A parameter is the last of its name just if it is found first from the end. -/
theorem mem_lastOfEachName_iff {ps : List Parameter} {p : Parameter} :
    p ∈ lastOfEachName ps ↔ ps.reverse.find? (fun q => q.name == p.name) = some p := by
  induction ps with
  | nil => simp [lastOfEachName]
  | cons q rest ih =>
    rw [lastOfEachName_cons, List.reverse_cons, List.find?_append]
    cases hfound : rest.reverse.find? fun r => r.name == p.name with
    | none =>
      have hnone : p.name ∉ rest.map Parameter.name := by
        simpa [List.find?_eq_none] using hfound
      have hrest : p ∉ lastOfEachName rest := by
        rw [ih, hfound]
        exact nofun
      rw [Option.none_or]
      by_cases hsame : q.name = p.name
      · rw [if_neg (hsame ▸ hnone), List.mem_cons, or_iff_left hrest]
        simp [hsame, eq_comm]
      · have hother : p ≠ q := fun heq => hsame (congrArg Parameter.name heq.symm)
        split <;> simp [hrest, hsame, hother]
    | some r =>
      have hr : r ∈ rest ∧ r.name = p.name := by
        have hmem := List.mem_of_find?_eq_some hfound
        have hname := List.find?_some hfound
        exact ⟨by simpa using hmem, by simpa using hname⟩
      rw [hfound] at ih
      rw [Option.some_or]
      split
      · exact ih
      · next hlast =>
        have hother : p ≠ q := by
          intro heq
          apply hlast
          rw [← heq, ← hr.2]
          exact List.mem_map_of_mem hr.1
        rw [List.mem_cons, or_iff_right hother]
        exact ih

/-- Another parameter at the end takes the place of the one of its name. -/
theorem lastOfEachName_concat (ps : List Parameter) (p : Parameter) :
    lastOfEachName (ps ++ [p]) =
      (lastOfEachName ps).filter (fun q => q.name != p.name) ++ [p] := by
  induction ps with
  | nil => rfl
  | cons q rest ih =>
    rw [List.cons_append, lastOfEachName_cons, lastOfEachName_cons, ih]
    by_cases hsame : q.name = p.name
    · simp only [List.map_append, List.mem_append, hsame, List.map_cons, List.mem_cons, true_or,
        or_true, if_true]
      split
      · rfl
      · rw [List.filter_cons_of_neg (by simp [hsame])]
    · by_cases hlater : q.name ∈ rest.map Parameter.name
      · rw [if_pos (by simp [hlater]), if_pos hlater]
      · rw [if_neg (by simp [hlater, hsame]), if_neg hlater,
          List.filter_cons_of_pos (by simpa using hsame), List.cons_append]

end LastOfEachName

namespace Bindings

/-- What can be done to the slots of a template. -/
inductive Step where
  | bindNext (value : Value)
  | assign (p : Parameter)

namespace Step

/-- The slots after a step. A value for which no slot is left changes nothing. -/
def apply (bindings : Bindings) : Step → Bindings
  | bindNext value =>
    match bindings.bindNext value with
    | .ok next => next
    | .error _ => bindings
  | assign p => bindings.assign p

/-- The parameter that a step puts among the slots, which then counts as bound. -/
def assigned? : Step → Option Parameter
  | bindNext _ => none
  | assign p => some { p with bound := true }

end Step

/-- The slots after steps, one after the other. -/
def run (bindings : Bindings) (steps : List Step) : Bindings :=
  steps.foldl Step.apply bindings

theorem run_concat (bindings : Bindings) (steps : List Step) (step : Step) :
    bindings.run (steps ++ [step]) = step.apply (bindings.run steps) := by
  simp [run]

/-- The parameters that steps assign, from the first to the last. -/
def assignedBy (steps : List Step) : List Parameter :=
  steps.filterMap Step.assigned?

theorem assignedBy_concat_bindNext (steps : List Step) (value : Value) :
    assignedBy (steps ++ [.bindNext value]) = assignedBy steps := by
  simp [assignedBy, Step.assigned?]

theorem assignedBy_concat_assign (steps : List Step) (p : Parameter) :
    assignedBy (steps ++ [.assign p]) = assignedBy steps ++ [{ p with bound := true }] := by
  simp [assignedBy, Step.assigned?]

theorem bound_of_mem_assignedBy {steps : List Step} {p : Parameter}
    (hmem : p ∈ assignedBy steps) : p.bound = true := by
  obtain ⟨step, _, hstep⟩ := List.mem_filterMap.1 hmem
  cases step with
  | bindNext value => cases hstep
  | assign q =>
    obtain rfl := Option.some.inj hstep
    rfl

/-- The names that steps assign a parameter to. -/
def assignedNames (steps : List Step) : List String :=
  (assignedBy steps).map Parameter.name

theorem assignedNames_concat_assign (steps : List Step) (p : Parameter) :
    assignedNames (steps ++ [.assign p]) = assignedNames steps ++ [p.name] := by
  rw [assignedNames, assignedBy_concat_assign, List.map_append]
  rfl

section BindFirst

variable {filled rest : List Parameter}

/-- A value is bound to the slot behind those that are bound. -/
theorem bindFirst?_append_cons (hfilled : ∀ slot ∈ filled, slot.bound = true) {slot : Parameter}
    (hvacant : slot.bound = false) (value : Value) :
    bindFirst? value (filled ++ slot :: rest) = some (filled ++ slot.bind value :: rest) := by
  induction filled with
  | nil => simp [bindFirst?, hvacant]
  | cons first filled ih =>
    have hfirst := hfilled first List.mem_cons_self
    have hothers := ih fun other hmem => hfilled other (List.mem_cons_of_mem first hmem)
    simp [bindFirst?, hfirst, hothers]

end BindFirst

/-- The slots of a template after steps: those that a value was bound to, those that are vacant and
the parameters that were assigned. -/
structure Arranged (text : List Char) (steps : List Step) (slots filled vacant : List Parameter) :
    Prop where
  slots_eq : slots = filled ++ vacant ++ lastOfEachName (assignedBy steps)
  names : (filled ++ vacant).map Parameter.name =
    (placeholderNames text).filter fun name => name ∉ assignedNames steps
  filled : ∀ slot ∈ filled, slot.bound = true ∧ slot.acceptsNull = false
  vacant : ∀ slot ∈ vacant, slot = .unbound slot.name

namespace Arranged

variable {text : List Char} {steps : List Step} {slots filled vacant : List Parameter}

theorem ofTemplate (text : List Char) :
    Arranged text [] (ofTemplate text).slots [] (ofTemplate text).slots := by
  refine ⟨?_, ?_, nofun, fun slot hslot => ?_⟩
  · exact (List.append_nil _).symm
  · have hnames : (Bindings.ofTemplate text).slots.map Parameter.name = placeholderNames text := by
      rw [Bindings.ofTemplate, List.map_map]
      exact List.map_id _
    rw [List.nil_append, hnames]
    exact (List.filter_eq_self.2 fun name _ => by simp [assignedNames, assignedBy]).symm
  · obtain ⟨name, _, rfl⟩ := List.mem_map.1 hslot
    rfl

theorem named_bound {p : Parameter} (hmem : p ∈ lastOfEachName (assignedBy steps)) :
    p.bound = true :=
  bound_of_mem_assignedBy ((lastOfEachName_sublist _).subset hmem)

/-- No name has both a slot of the template and a parameter that was assigned to it. -/
theorem name_not_mem (harranged : Arranged text steps slots filled vacant) {p : Parameter}
    (hmem : p ∈ lastOfEachName (assignedBy steps)) :
    p.name ∉ (filled ++ vacant).map Parameter.name := by
  have hassigned : p.name ∈ assignedNames steps :=
    List.mem_map_of_mem ((lastOfEachName_sublist _).subset hmem)
  rw [harranged.names]
  intro hname
  simpa [hassigned] using List.of_mem_filter hname

/-- Where no slot is vacant, there is none for another value. -/
theorem bindNext_full (harranged : Arranged text steps slots filled []) (value : Value) :
    (⟨slots⟩ : Bindings).bindNext value = .error (.noUnboundSlot value) := by
  rw [bindNext_eq_error_iff]
  refine ⟨fun slot hslot => ?_, rfl⟩
  rw [harranged.slots_eq, List.append_nil, List.mem_append] at hslot
  obtain hslot | hslot := hslot
  · exact (harranged.filled slot hslot).1
  · exact named_bound hslot

/-- A value is bound to the first slot that is vacant. -/
theorem bindNext_vacant {slot : Parameter}
    (harranged : Arranged text steps slots filled (slot :: vacant)) (value : Value) :
    (⟨slots⟩ : Bindings).bindNext value =
      .ok ⟨filled ++ [slot.bind value] ++ vacant ++ lastOfEachName (assignedBy steps)⟩ := by
  have hfilled := fun other hmem => (harranged.filled other hmem).1
  have hslot : slot.bound = false := by
    rw [harranged.vacant slot List.mem_cons_self]
    rfl
  rw [harranged.slots_eq, Bindings.bindNext, List.append_assoc, List.cons_append,
    bindFirst?_append_cons hfilled hslot value]
  simp

/-- Binding the next value keeps the slots arranged. -/
theorem bindNext (harranged : Arranged text steps slots filled vacant) (value : Value) :
    ∃ filled' vacant', Arranged text (steps ++ [.bindNext value])
      ((Step.bindNext value).apply ⟨slots⟩).slots filled' vacant' := by
  cases vacant with
  | nil =>
    refine ⟨filled, [], ?_, ?_, harranged.filled, nofun⟩
    · rw [Step.apply, harranged.bindNext_full, assignedBy_concat_bindNext]
      exact harranged.slots_eq
    · rw [assignedNames, assignedBy_concat_bindNext]
      exact harranged.names
  | cons slot vacant =>
    refine ⟨filled ++ [slot.bind value], vacant, ?_, ?_, ?_, ?_⟩
    · rw [Step.apply, harranged.bindNext_vacant, assignedBy_concat_bindNext]
    · rw [assignedNames, assignedBy_concat_bindNext, ← assignedNames, ← harranged.names]
      simp [Parameter.bind]
    · intro other hother
      obtain hother | hother := List.mem_append.1 hother
      · exact harranged.filled other hother
      · obtain rfl := List.mem_singleton.1 hother
        rw [harranged.vacant slot List.mem_cons_self]
        exact ⟨rfl, rfl⟩
    · intro other hother
      exact harranged.vacant other (List.mem_cons_of_mem slot hother)

/-- Assigning a parameter takes the slots of its name away. -/
theorem assign (harranged : Arranged text steps slots filled vacant) (p : Parameter) :
    Arranged text (steps ++ [.assign p]) ((Step.assign p).apply ⟨slots⟩).slots
      (filled.filter fun slot => slot.name != p.name)
      (vacant.filter fun slot => slot.name != p.name) := by
  refine ⟨?_, ?_, ?_, ?_⟩
  · rw [Step.apply, Bindings.assign, harranged.slots_eq, assignedBy_concat_assign,
      lastOfEachName_concat]
    simp only [List.filter_append, List.append_assoc]
  · have hmap : ∀ ps : List Parameter, (ps.filter fun slot => slot.name != p.name).map
        Parameter.name = (ps.map Parameter.name).filter fun name => name != p.name := by
      intro ps
      rw [List.filter_map]
      rfl
    rw [← List.filter_append, hmap, harranged.names, List.filter_filter]
    apply List.filter_congr
    intro name _
    rw [assignedNames_concat_assign]
    by_cases hsame : name = p.name <;> simp [hsame]
  · intro slot hslot
    exact harranged.filled slot (List.mem_of_mem_filter hslot)
  · intro slot hslot
    exact harranged.vacant slot (List.mem_of_mem_filter hslot)

/-- Whatever was done, the slots are arranged. -/
theorem exists_run (text : List Char) (steps : List Step) :
    ∃ filled vacant,
      Arranged text steps ((Bindings.ofTemplate text).run steps).slots filled vacant := by
  induction steps using List.reverseRecOn with
  | nil => exact ⟨[], _, ofTemplate text⟩
  | append_singleton steps step ih =>
    obtain ⟨filled, vacant, harranged⟩ := ih
    rw [run_concat]
    cases step with
    | bindNext value => exact harranged.bindNext value
    | assign p => exact ⟨_, _, harranged.assign p⟩

end Arranged

/-- After any steps the slots of a template are those with a value, then those without one, whose
names are the placeholders of the template less the names that were assigned to, and then the last
parameter assigned to each name. The next value is bound to the first vacant slot, and there is no
slot for it just if none is vacant. The names that were assigned to need not be the template's. -/
theorem slots_run_arranged (text : List Char) (steps : List Step) :
    let bindings := (ofTemplate text).run steps
    let named := lastOfEachName (assignedBy steps)
    ∃ filled vacant,
      bindings.slots = filled ++ vacant ++ named ∧
      (filled ++ vacant).map Parameter.name =
        (placeholderNames text).filter (fun name => name ∉ assignedNames steps) ∧
      (∀ slot ∈ filled, slot.bound = true ∧ slot.acceptsNull = false) ∧
      (∀ slot ∈ vacant, slot.bound = false ∧ slot.acceptsNull = false ∧ slot.value = .null) ∧
      (∀ p, p ∈ named ↔ (assignedBy steps).reverse.find? (fun q => q.name == p.name) = some p) ∧
      (∀ p ∈ named, p.bound = true ∧ p.name ∉ (filled ++ vacant).map Parameter.name) ∧
      (named.map Parameter.name).Nodup ∧
      named.Pairwise (fun p q => (assignedNames steps).reverse.idxOf q.name <
        (assignedNames steps).reverse.idxOf p.name) ∧
      ∀ value,
        ((∃ next, bindings.bindNext value = .ok next) ↔ vacant ≠ []) ∧
        (∀ slot rest, vacant = slot :: rest → bindings.bindNext value =
          .ok ⟨filled ++ [{ slot with value := value, bound := true }] ++ rest ++ named⟩) ∧
        (vacant = [] → bindings.bindNext value = .error (.noUnboundSlot value) ∧
          (Step.bindNext value).apply bindings = bindings) := by
  intro bindings named
  obtain ⟨filled, vacant, harranged⟩ := Arranged.exists_run text steps
  have hfull : ∀ value, vacant = [] →
      bindings.bindNext value = .error (.noUnboundSlot value) := by
    rintro value rfl
    exact harranged.bindNext_full value
  have hnext : ∀ value slot rest, vacant = slot :: rest →
      bindings.bindNext value =
        .ok ⟨filled ++ [{ slot with value := value, bound := true }] ++ rest ++ named⟩ := by
    rintro value slot rest rfl
    exact harranged.bindNext_vacant value
  refine ⟨filled, vacant, harranged.slots_eq, harranged.names, harranged.filled, ?_,
    fun p => mem_lastOfEachName_iff, ?_, nodup_map_name_lastOfEachName _,
    pairwise_lastOfEachName _, fun value => ?_⟩
  · intro slot hslot
    rw [harranged.vacant slot hslot]
    exact ⟨rfl, rfl, rfl⟩
  · intro p hp
    exact ⟨Arranged.named_bound hp, harranged.name_not_mem hp⟩
  · refine ⟨?_, hnext value, fun hvacant => ⟨hfull value hvacant, ?_⟩⟩
    · cases hslots : vacant with
      | nil => simp [hfull value hslots]
      | cons slot rest => simp [hnext value slot rest hslots]
    · rw [Step.apply, hfull value hvacant]

/-- In an arrangement the vacant slots are those that nothing is bound to. -/
private theorem vacant_eq_filter {slots filled vacant named : List Parameter}
    (hslots : slots = filled ++ vacant ++ named) (hfilled : ∀ slot ∈ filled, slot.bound = true)
    (hvacant : ∀ slot ∈ vacant, slot.bound = false) (hnamed : ∀ p ∈ named, p.bound = true) :
    vacant = slots.filter fun slot => !slot.bound := by
  have hnone : ∀ ps : List Parameter, (∀ p ∈ ps, p.bound = true) →
      ps.filter (fun p => !p.bound) = [] := by
    intro ps hps
    rw [List.filter_eq_nil_iff]
    intro p hp
    simp [hps p hp]
  have hall : vacant.filter (fun slot => !slot.bound) = vacant := by
    rw [List.filter_eq_self]
    intro slot hslot
    simp [hvacant slot hslot]
  rw [hslots, List.filter_append, List.filter_append, hnone filled hfilled, hnone named hnamed,
    hall, List.nil_append, List.append_nil]

/-- A name with two slots, a name that takes the place of a slot and is assigned to once more, and
a value too many. -/
theorem slots_run_arranged_reassigned :
    let text := ":a :x :a :y".toList
    let steps : List Step := [.bindNext (.int 1), .assign (.assigned "x" (.int 2) false),
      .bindNext .null, .assign (.assigned "x" (.text "u") true)]
    let bindings := (ofTemplate text).run steps
    let filled : List Parameter := [⟨"a", .int 1, false, true⟩, ⟨"a", .null, false, true⟩]
    let named : List Parameter := [⟨"x", .text "u", true, true⟩]
    bindings.slots = filled ++ [⟨"y", .null, false, false⟩] ++ named ∧
      bindings.bindNext (.int 3) = .ok ⟨filled ++ [⟨"y", .int 3, false, true⟩] ++ named⟩ ∧
      let full := (ofTemplate text).run (steps ++ [.bindNext (.int 3)])
      full.bindNext (.int 4) = .error (.noUnboundSlot (.int 4)) ∧
        (Step.bindNext (.int 4)).apply full = full := by
  intro text steps bindings filled named
  have hslots : bindings.slots = filled ++ [⟨"y", .null, false, false⟩] ++ named := by
    decide +kernel
  refine ⟨hslots, ?_, ?_⟩
  · obtain ⟨filled', vacant, hall, _, hfilled, hvacant, _, hnamed, _, _, hnext⟩ :=
      slots_run_arranged text steps
    have hlast : lastOfEachName (assignedBy steps) = named := by decide +kernel
    have hfilter := vacant_eq_filter hall (fun slot hslot => (hfilled slot hslot).1)
      (fun slot hslot => (hvacant slot hslot).1) (fun p hp => (hnamed p hp).1)
    obtain rfl : vacant = [⟨"y", .null, false, false⟩] := hfilter.trans (by decide +kernel)
    obtain rfl : filled' = filled := by
      rw [hslots, hlast, List.append_assoc, List.append_assoc] at hall
      exact (List.append_cancel_right hall).symm
    rw [(hnext (.int 3)).2.1 _ _ rfl, hlast, List.append_nil]
  · intro full
    obtain ⟨filled', vacant, hall, _, hfilled, hvacant, _, hnamed, _, _, hnext⟩ :=
      slots_run_arranged text (steps ++ [.bindNext (.int 3)])
    have hfilter := vacant_eq_filter hall (fun slot hslot => (hfilled slot hslot).1)
      (fun slot hslot => (hvacant slot hslot).1) (fun p hp => (hnamed p hp).1)
    obtain rfl : vacant = [] := hfilter.trans (by decide +kernel)
    exact (hnext (.int 4)).2.2 rfl

end Bindings

end SqlTemplate
