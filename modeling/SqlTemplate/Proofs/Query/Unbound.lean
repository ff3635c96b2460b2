import SqlTemplate.Proofs.Pruning.ConnectorNames
import SqlTemplate.Proofs.Query.Positional
import SqlTemplate.Proofs.Query.Slots

namespace SqlTemplate

namespace Bindings

/-- A slot that nothing was bound to is as it was made. -/
def WellFormed (bindings : Bindings) : Prop :=
  ∀ slot ∈ bindings.slots, slot.bound = false → slot = .unbound slot.name

theorem wellFormed_ofTemplate (text : List Char) : (ofTemplate text).WellFormed := by
  intro slot hslot _
  obtain ⟨name, _, rfl⟩ := List.mem_map.1 hslot
  rfl

theorem mem_of_bindFirst? {value : Value} {slots slots' : List Parameter}
    (hbind : bindFirst? value slots = some slots') :
    ∀ slot ∈ slots', slot.bound = true ∨ slot ∈ slots := by
  induction slots generalizing slots' with
  | nil => cases hbind
  | cons first rest ih =>
    intro slot hslot
    unfold bindFirst? at hbind
    split at hbind
    · obtain ⟨rest', hrest, rfl⟩ := Option.map_eq_some_iff.1 hbind
      obtain rfl | hslot := List.mem_cons.1 hslot
      · exact .inr List.mem_cons_self
      · exact (ih hrest slot hslot).imp id (List.mem_cons_of_mem first)
    · obtain rfl := Option.some.inj hbind
      obtain rfl | hslot := List.mem_cons.1 hslot
      · exact .inl rfl
      · exact .inr (List.mem_cons_of_mem first hslot)

theorem WellFormed.assign {bindings : Bindings} (hwell : bindings.WellFormed) (p : Parameter) :
    (bindings.assign p).WellFormed := by
  intro slot hslot hunbound
  obtain hslot | hslot := List.mem_append.1 hslot
  · exact hwell slot (List.mem_of_mem_filter hslot) hunbound
  · obtain rfl := List.mem_singleton.1 hslot
    cases hunbound

/-- A name that nothing was bound to lacks a value. -/
theorem WellFormed.lacks {bindings : Bindings} (hwell : bindings.WellFormed) {name : String}
    (hunbound : ∀ p ∈ bindings.get? name, p.bound = false) : bindings.lacks name = true := by
  rw [Bindings.lacks]
  cases hslot : bindings.get? name with
  | none => rfl
  | some slot =>
    have hmade := hwell slot (List.mem_of_find?_eq_some hslot) (hunbound slot hslot)
    rw [Option.all_some, hmade]
    rfl

end Bindings

section Find

/-- Where all parameters of a name are kept, the first of them is found as before. -/
theorem find?_filter_of_keeps {keeps : Parameter → Bool} {name : String}
    (hkeeps : ∀ p, p.name = name → keeps p = true) (ps : List Parameter) :
    (ps.filter keeps).find? (fun p => p.name == name) = ps.find? fun p => p.name == name := by
  rw [List.find?_filter]
  congr 1
  funext p
  by_cases hsame : p.name = name
  · simp [hsame, hkeeps p hsame]
  · simp [hsame]

theorem find?_firstOfEachName (ps : List Parameter) (name : String) :
    (firstOfEachName ps).find? (fun p => p.name == name) = ps.find? fun p => p.name == name := by
  induction ps with
  | nil => rfl
  | cons p ps ih =>
    rw [firstOfEachName, List.find?_cons, List.find?_cons]
    cases hfirst : p.name == name with
    | true => rfl
    | false =>
      refine (find?_filter_of_keeps (fun q hsame => ?_) _).trans ih
      rw [hsame, bne_iff_ne]
      rintro rfl
      simp at hfirst

end Find

namespace Draft

/-- A call leaves no slot without a value but those that nothing was bound to. -/
theorem wellFormed_apply {draft : Draft} (hwell : draft.bindings.WellFormed) (call : Call) :
    (call.apply draft).bindings.WellFormed := by
  cases call with
  | bind value =>
    change (draft.bind value).bindings.WellFormed
    rw [bind_eq]
    cases hbind : Bindings.bindFirst? value draft.bindings.slots with
    | none => exact hwell
    | some slots =>
      intro slot hslot hunbound
      obtain hbound | hslot := Bindings.mem_of_bindFirst? hbind slot hslot
      · rw [hbound] at hunbound
        cases hunbound
      · exact hwell slot hslot hunbound
  | assign p => exact hwell.assign p
  | keepNulls => exact hwell

/-- After any calls, a slot that nothing was bound to holds no value. -/
theorem wellFormed_run {draft : Draft} (hwell : draft.bindings.WellFormed) (calls : List Call) :
    (draft.run calls).bindings.WellFormed := by
  induction calls generalizing draft with
  | nil => exact hwell
  | cons call calls ih => exact ih (wellFormed_apply hwell call)

theorem keepsNulls_apply (draft : Draft) {call : Call} (hcall : call ≠ .keepNulls) :
    (call.apply draft).keepsNulls = draft.keepsNulls := by
  cases call with
  | bind value =>
    change (draft.bind value).keepsNulls = _
    rw [bind_eq]
    cases Bindings.bindFirst? value draft.bindings.slots <;> rfl
  | assign p => rfl
  | keepNulls => exact absurd rfl hcall

theorem keepsNulls_run (draft : Draft) {calls : List Call} (hcalls : .keepNulls ∉ calls) :
    (draft.run calls).keepsNulls = draft.keepsNulls := by
  induction calls generalizing draft with
  | nil => rfl
  | cons call calls ih =>
    rw [List.mem_cons, not_or] at hcalls
    exact (ih (call.apply draft) hcalls.2).trans (keepsNulls_apply draft (Ne.symm hcalls.1))

/-- A built query gives a name of its text what the draft gives it. -/
theorem get?_build {draft : Draft} {name : String}
    (hname : name ∈ placeholderNames draft.build.sql.toList) :
    draft.build.get? name = draft.get? name := by
  change (firstOfEachName _).find? _ = draft.bindings.slots.find? _
  rw [find?_firstOfEachName]
  refine find?_filter_of_keeps (fun p hsame => ?_) _
  rw [hsame]
  exact List.contains_iff_mem.2 hname

/-- Where no connector stands behind a colon, a name of the built text that nothing was bound to has
a placeholder in the template that no clause compares with. -/
theorem exists_uncompared_of_unbound {draft : Draft}
    (hnone : ¬ Connector.BehindColon draft.template.toList) (hprunes : draft.keepsNulls = false)
    (hwell : draft.bindings.WellFormed) {name : String}
    (hname : name ∈ placeholderNames draft.build.sql.toList)
    (hunbound : ∀ p ∈ draft.build.get? name, p.bound = false) :
    ∃ p ∈ placeholders draft.template.toList, p.name = name ∧
      ∀ clause ∈ clauses draft.template.toList, ¬ clause.ComparesWith p := by
  rw [get?_build hname] at hunbound
  have hsql : draft.build.sql = (Pruned.removing draft.bindings.lacks draft.template).sql := by
    change (SqlTemplate.prune draft.keepsNulls _ _).sql = _
    rw [hprunes]
    rfl
  rw [hsql, (Pruning.placeholderNames_removing_iff draft.template).2
    (Pruning.undisturbed_of_noneBehindColon hnone)] at hname
  exact Pruning.exists_uncompared_of_survives hnone hname (hwell.lacks hunbound)

/-- If a built query is no statement, the name that the error gives has a placeholder in the
template that no clause compares with. So a name that only clauses compare with is bound, or has no
placeholder left. Assumed is only that nulls are not kept and that no connector stands right behind
a colon of the template. -/
theorem exists_uncompared_of_unboundParameter (template : String)
    (hnone : ¬ Connector.BehindColon template.toList) {calls : List Call}
    (hcalls : .keepNulls ∉ calls) :
    let text := template.toList
    let query := ((ofTemplate template).run calls).build
    (∀ name, query.toStatement = .error (.unboundParameter name) →
        ∃ p ∈ placeholders text, p.name = name ∧ ∀ clause ∈ clauses text, ¬ clause.ComparesWith p) ∧
      ∀ name, (∀ p ∈ placeholders text, p.name = name →
          ∃ clause ∈ clauses text, clause.ComparesWith p) →
        name ∉ placeholderNames query.sql.toList ∨
          ∃ p, query.get? name = some p ∧ p.bound = true := by
  intro text query
  have htemplate : ((ofTemplate template).run calls).template = template := template_run _ calls
  have hprunes : ((ofTemplate template).run calls).keepsNulls = false := keepsNulls_run _ hcalls
  have hwell : ((ofTemplate template).run calls).bindings.WellFormed :=
    wellFormed_run (Bindings.wellFormed_ofTemplate text) calls
  have huncompared := @exists_uncompared_of_unbound ((ofTemplate template).run calls)
    (by rwa [htemplate]) hprunes hwell
  rw [htemplate] at huncompared
  constructor
  · intro name herror
    obtain ⟨before, name', after, hnames, _, hunbound, heq⟩ :=
      Query.exists_of_toStatement_eq_error herror
    obtain rfl := StatementError.unboundParameter.inj heq
    exact huncompared (by rw [hnames]; simp) hunbound
  · intro name hcompared
    by_contra hneither
    obtain ⟨hname, hnever⟩ := not_or.1 hneither
    obtain ⟨p, hp, hsame, hfree⟩ := huncompared (not_not.1 hname) fun q hq => by
      by_contra hbound
      exact hnever ⟨q, hq, eq_true_of_ne_false hbound⟩
    obtain ⟨clause, hclause, hcompares⟩ := hcompared p hp hsame
    exact hfree clause hclause hcompares

/-- One name in a clause, and one that is not compared with. -/
theorem exists_uncompared_of_unboundParameter_inList :
    let template := "SELECT * FROM t WHERE a = :x AND b IN (:n)"
    let text := template.toList
    let query := ((ofTemplate template).run [.bind (.int 1)]).build
    query.toStatement = .error (.unboundParameter "n") ∧
      (∃ p ∈ placeholders text, p.name = "n" ∧ ∀ clause ∈ clauses text, ¬ clause.ComparesWith p) ∧
      (∀ p ∈ placeholders text, p.name = "x" → ∃ clause ∈ clauses text, clause.ComparesWith p) ∧
      ("x" ∉ placeholderNames query.sql.toList ∨
        ∃ p, query.get? "x" = some p ∧ p.bound = true) := by
  intro template text query
  have hnone : ¬ Connector.BehindColon text := by decide +kernel
  have hcalls : Call.keepNulls ∉ [Call.bind (.int 1)] := by simp
  have herror : query.toStatement = .error (.unboundParameter "n") := by decide +kernel
  have hcompared : ∀ p ∈ placeholders text, p.name = "x" →
      ∃ clause ∈ clauses text, clause.ComparesWith p := by decide +kernel
  obtain ⟨hfails, hbinds⟩ := exists_uncompared_of_unboundParameter template hnone hcalls
  exact ⟨herror, hfails "n" herror, hcompared, hbinds "x" hcompared⟩

end Draft

end SqlTemplate
