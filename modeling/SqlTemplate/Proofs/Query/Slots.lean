import SqlTemplate.Proofs.Pruning.Renaming
import SqlTemplate.Query

namespace SqlTemplate

namespace Bindings

theorem map_name_bindFirst? {value : Value} {slots slots' : List Parameter}
    (hbind : bindFirst? value slots = some slots') :
    slots'.map Parameter.name = slots.map Parameter.name := by
  induction slots generalizing slots' with
  | nil => cases hbind
  | cons slot rest ih =>
    unfold bindFirst? at hbind
    split at hbind
    · obtain ⟨rest', hrest, rfl⟩ := Option.map_eq_some_iff.1 hbind
      rw [List.map_cons, List.map_cons, ih hrest]
    · obtain rfl := Option.some.inj hbind
      rfl

theorem exists_slot_assign {bindings : Bindings} (p : Parameter) {name : String}
    (hslot : ∃ slot ∈ bindings.slots, slot.name = name) :
    ∃ slot ∈ (bindings.assign p).slots, slot.name = name := by
  obtain ⟨slot, hmem, rfl⟩ := hslot
  by_cases hsame : slot.name = p.name
  · exact ⟨{ p with bound := true }, List.mem_append_right _ List.mem_cons_self, hsame.symm⟩
  · refine ⟨slot, List.mem_append_left _ (List.mem_filter.2 ⟨hmem, ?_⟩), rfl⟩
    simpa using hsame

theorem exists_slot_ofTemplate_iff {text : List Char} {name : String} :
    (∃ slot ∈ (ofTemplate text).slots, slot.name = name) ↔ name ∈ placeholderNames text := by
  constructor
  · rintro ⟨slot, hmem, rfl⟩
    obtain ⟨name, hname, rfl⟩ := List.mem_map.1 hmem
    exact hname
  · intro hname
    exact ⟨.unbound name, List.mem_map_of_mem hname, rfl⟩

end Bindings

namespace Draft

/-- What can be called on a draft before it is built. -/
inductive Call where
  | bind (value : Value)
  | assign (p : Parameter)
  | keepNulls

def Call.apply (draft : Draft) : Call → Draft
  | bind value => draft.bind value
  | assign p => draft.assign p
  | keepNulls => draft.keepNulls

/-- A draft after calls, one after the other. -/
def run (draft : Draft) (calls : List Call) : Draft :=
  calls.foldl Call.apply draft

theorem bind_eq (draft : Draft) (value : Value) :
    draft.bind value = ((Bindings.bindFirst? value draft.bindings.slots).map fun slots =>
      { draft with bindings := ⟨slots⟩ }).getD draft := by
  unfold bind Bindings.bindNext
  cases Bindings.bindFirst? value draft.bindings.slots <;> rfl

theorem template_apply (draft : Draft) (call : Call) :
    (call.apply draft).template = draft.template := by
  cases call with
  | bind value =>
    change (draft.bind value).template = _
    rw [bind_eq]
    cases Bindings.bindFirst? value draft.bindings.slots <;> rfl
  | assign p => rfl
  | keepNulls => rfl

theorem exists_slot_apply {draft : Draft} (call : Call) {name : String}
    (hslot : ∃ slot ∈ draft.bindings.slots, slot.name = name) :
    ∃ slot ∈ (call.apply draft).bindings.slots, slot.name = name := by
  cases call with
  | bind value =>
    change ∃ slot ∈ (draft.bind value).bindings.slots, slot.name = name
    rw [bind_eq]
    cases hbind : Bindings.bindFirst? value draft.bindings.slots with
    | none => exact hslot
    | some slots =>
      have hname : name ∈ draft.bindings.slots.map Parameter.name := List.mem_map.2 hslot
      rw [← Bindings.map_name_bindFirst? hbind] at hname
      exact List.mem_map.1 hname
  | assign p => exact Bindings.exists_slot_assign p hslot
  | keepNulls => exact hslot

theorem template_run (draft : Draft) (calls : List Call) :
    (draft.run calls).template = draft.template := by
  induction calls generalizing draft with
  | nil => rfl
  | cons call calls ih => exact (ih (call.apply draft)).trans (template_apply draft call)

/-- Whatever is called, no name loses its slot. -/
theorem exists_slot_run {draft : Draft} (calls : List Call) {name : String}
    (hslot : ∃ slot ∈ draft.bindings.slots, slot.name = name) :
    ∃ slot ∈ (draft.run calls).bindings.slots, slot.name = name := by
  induction calls generalizing draft with
  | nil => exact hslot
  | cons call calls ih => exact ih (exists_slot_apply call hslot)

end Draft

theorem firstOfEachName_sublist (ps : List Parameter) : (firstOfEachName ps).Sublist ps := by
  induction ps with
  | nil => exact .slnil
  | cons p rest ih => exact (List.filter_sublist.trans ih).cons_cons p

theorem exists_mem_firstOfEachName {ps : List Parameter} {name : String}
    (hname : ∃ p ∈ ps, p.name = name) : ∃ p ∈ firstOfEachName ps, p.name = name := by
  induction ps with
  | nil => simp at hname
  | cons p rest ih =>
    by_cases hfirst : p.name = name
    · exact ⟨p, List.mem_cons_self, hfirst⟩
    · obtain ⟨q, hq, rfl⟩ := hname
      have hrest := List.mem_of_ne_of_mem (fun heq => hfirst (by rw [heq])) hq
      obtain ⟨r, hr, hsame⟩ := ih ⟨q, hrest, rfl⟩
      refine ⟨r, List.mem_cons_of_mem p (List.mem_filter.2 ⟨hr, ?_⟩), hsame⟩
      rw [hsame]
      simpa using Ne.symm hfirst

namespace Draft

/-- Every name in the text of the built query has a slot in the template, and a parameter in the
query. -/
def Supplies (draft : Draft) : Prop :=
  ∀ name ∈ placeholderNames draft.build.sql.toList,
    (∃ slot ∈ (Bindings.ofTemplate draft.template.toList).slots, slot.name = name) ∧
      ∃ p ∈ draft.build.parameters, p.name = name

/-- A name of the built text that has a slot has a parameter. -/
theorem exists_parameter_build {draft : Draft} {name : String}
    (hname : name ∈ placeholderNames draft.build.sql.toList)
    (hslot : ∃ slot ∈ draft.bindings.slots, slot.name = name) :
    ∃ p ∈ draft.build.parameters, p.name = name := by
  apply exists_mem_firstOfEachName
  obtain ⟨slot, hmem, rfl⟩ := hslot
  exact ⟨slot, List.mem_filter.2 ⟨hmem, List.contains_iff_mem.2 hname⟩, rfl⟩

/-- When the built text has names of the template only. -/
theorem placeholderNames_build_subset_iff (draft : Draft) :
    (∀ name ∈ placeholderNames draft.build.sql.toList,
        name ∈ placeholderNames draft.template.toList) ↔
      draft.keepsNulls = true ∨
        Connector.where_.keyword ∈ placeholderNames draft.template.toList ∨
          ¬ Pruning.Renames draft.bindings.lacks draft.template.toList := by
  have hsql : draft.build.sql =
      (SqlTemplate.prune draft.keepsNulls draft.bindings.lacks draft.template).sql := rfl
  by_cases hkeeps : draft.keepsNulls = true
  · refine iff_of_true (fun name hname => ?_) (.inl hkeeps)
    rw [hsql, SqlTemplate.prune, if_pos hkeeps] at hname
    change name ∈ placeholderNames (String.ofList (trim draft.template.toList)).toList at hname
    rwa [String.toList_ofList, placeholderNames_trim] at hname
  · rw [hsql, SqlTemplate.prune, if_neg hkeeps, Pruning.placeholderNames_removing_subset_iff,
      or_iff_right hkeeps]

theorem supplies_run_iff (template : String) (calls : List Call) :
    ((ofTemplate template).run calls).Supplies ↔
      ((ofTemplate template).run calls).keepsNulls = true ∨
        Connector.where_.keyword ∈ placeholderNames template.toList ∨
          ¬ Pruning.Renames ((ofTemplate template).run calls).bindings.lacks template.toList := by
  have htemplate : ((ofTemplate template).run calls).template = template := template_run _ calls
  have hsubset := placeholderNames_build_subset_iff ((ofTemplate template).run calls)
  rw [htemplate] at hsubset
  rw [← hsubset, Supplies, htemplate]
  constructor
  · intro hsupplies name hname
    exact Bindings.exists_slot_ofTemplate_iff.1 (hsupplies name hname).1
  · intro hnames name hname
    have hslot := Bindings.exists_slot_ofTemplate_iff.2 (hnames name hname)
    exact ⟨hslot, exists_parameter_build hname (exists_slot_run calls hslot)⟩

end Draft

/-- Pruning leaves the placeholders that it does not remove as they are just if none of its edits
disturbs one. A built query has a parameter for each name in its text, and its template a slot, just
if all clauses are kept, or the template has the name `WHERE`, or no promotion makes it one. -/
theorem prune_keeps_placeholders_iff (template : String) :
    (∀ bindings : Bindings,
      placeholderNames (prune false bindings.lacks template).sql.toList =
          Pruning.survivingNames bindings.lacks template.toList ↔
        Pruning.Undisturbed bindings.lacks template.toList) ∧
    ∀ calls : List Draft.Call,
      ((Draft.ofTemplate template).run calls).Supplies ↔
        ((Draft.ofTemplate template).run calls).keepsNulls = true ∨
          Connector.where_.keyword ∈ placeholderNames template.toList ∨
            ¬ Pruning.Renames ((Draft.ofTemplate template).run calls).bindings.lacks
              template.toList := by
  constructor
  · intro bindings
    exact Pruning.placeholderNames_removing_iff template
  · intro calls
    exact Draft.supplies_run_iff template calls

/-- A placeholder that is named like a connector becomes `WHERE`. -/
theorem prune_renames_or :
    let template := "SELECT :or FROM t WHERE a = :x AND b = :y"
    let bindings := (Bindings.ofTemplate template.toList).assign (.assigned "y" (.int 1) false)
    (prune false bindings.lacks template).sql = "SELECT :WHERE FROM t  AND b = :y" ∧
      placeholderNames (prune false bindings.lacks template).sql.toList = ["WHERE", "y"] ∧
      Pruning.survivingNames bindings.lacks template.toList = ["or", "y"] := by
  decide +kernel

end SqlTemplate
