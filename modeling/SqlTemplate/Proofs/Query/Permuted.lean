import Mathlib.Data.List.Nodup
import SqlTemplate.Proofs.Query.Lookup
import SqlTemplate.Proofs.Query.QuestionMarks
import SqlTemplate.Proofs.Query.Retained

namespace SqlTemplate

section Names

variable {ps : List Parameter}

theorem nodup_map_name_firstOfEachName (ps : List Parameter) :
    ((firstOfEachName ps).map Parameter.name).Nodup := by
  refine List.pairwise_map.2 ((pairwise_firstOfEachName ps).imp fun hlt heq => ?_)
  rw [heq] at hlt
  exact Nat.lt_irrefl _ hlt

/-- Among parameters of different names each is the one that is found by its name. -/
theorem mem_iff_find?_name (hdistinct : (ps.map Parameter.name).Nodup) {p : Parameter} :
    p ∈ ps ↔ ps.find? (fun q => q.name == p.name) = some p := by
  constructor
  · intro hmem
    obtain ⟨q, hfound⟩ : ∃ q, ps.find? (fun q => q.name == p.name) = some q := by
      rw [← Option.isSome_iff_exists, List.find?_isSome]
      exact ⟨p, hmem, beq_self_eq_true p.name⟩
    have hname := List.find?_some hfound
    rw [hfound, List.inj_on_of_nodup_map hdistinct (List.mem_of_find?_eq_some hfound) hmem
      (eq_of_beq hname)]
  · exact List.mem_of_find?_eq_some

end Names

/-- Two queries of one text that say the same of every name. -/
structure Query.Agree (query query' : Query) : Prop where
  sql : query.sql = query'.sql
  get? : query.get? = query'.get?

namespace Query.Agree

variable {query query' : Query}

theorem valueOf (hagree : query.Agree query') (name : String) :
    query.valueOf name = query'.valueOf name := by
  rw [Query.valueOf, Query.valueOf, hagree.get?]

theorem positional (hagree : query.Agree query') (pieces : List (Piece ColonName)) :
    query.positional pieces = query'.positional pieces := by
  induction pieces with
  | nil => rfl
  | cons piece pieces ih =>
    cases piece with
    | plain c => rw [positional_plain, positional_plain, ih]
    | found written word =>
      cases word with
      | cast name => rw [positional_cast, positional_cast, ih]
      | placeholder name => rw [positional_placeholder, positional_placeholder, hagree.valueOf, ih]

/-- They make the same statement, or fail for the same name. -/
theorem toStatement (hagree : query.Agree query') : query.toStatement = query'.toStatement := by
  rw [Query.toStatement, Query.toStatement, hagree.sql, hagree.positional]

end Query.Agree

namespace Draft

/-- Two drafts of one template that say the same of every name. -/
structure Agree (draft draft' : Draft) : Prop where
  template : draft.template = draft'.template
  get? : draft.get? = draft'.get?
  keepsNulls : draft.keepsNulls = draft'.keepsNulls

theorem nodup_map_name_build (draft : Draft) :
    (draft.build.parameters.map Parameter.name).Nodup := by
  rw [parameters_build]
  exact (nodup_map_name_firstOfEachName _).sublist (List.filter_sublist.map _)

namespace Agree

variable {draft draft' : Draft}

/-- Pruning comes out the same, down to what it reports. -/
theorem prune_eq (hagree : draft.Agree draft') : draft.prune = draft'.prune := by
  have hlacks : draft.bindings.lacks = draft'.bindings.lacks := by
    funext name
    exact congrArg (Option.all Parameter.isPrunable) (congrFun hagree.get? name)
  rw [Draft.prune, Draft.prune, hagree.keepsNulls, hlacks, hagree.template]

/-- Drafts that say the same of every name are built into queries that do so too. The order of the
slots may differ, but pruning and statements ask for names only. -/
theorem build (hagree : draft.Agree draft') : draft.build.Agree draft'.build := by
  have hsql : draft.build.sql = draft'.build.sql := congrArg Pruned.sql hagree.prune_eq
  refine ⟨hsql, funext fun name => ?_⟩
  by_cases hname : name ∈ placeholderNames draft.build.sql.toList
  · rw [get?_build hname, get?_build (hsql ▸ hname), hagree.get?]
  · rw [get?_build_eq_none hname, get?_build_eq_none (hsql ▸ hname)]

/-- The queries keep the same parameters, whatever the order of the slots. -/
theorem parameters_perm (hagree : draft.Agree draft') :
    draft.build.parameters.Perm draft'.build.parameters := by
  have hdistinct := nodup_map_name_build draft
  have hdistinct' := nodup_map_name_build draft'
  rw [List.perm_ext_iff_of_nodup hdistinct.of_map hdistinct'.of_map]
  intro p
  rw [mem_iff_find?_name hdistinct, mem_iff_find?_name hdistinct']
  exact iff_of_eq (congrArg (· = some p) (congrFun hagree.build.get? p.name))

end Agree

/-- Parameters of different names take over their names in any order. -/
theorem agree_run_of_perm (draft : Draft) {ps qs : List Parameter} (hperm : ps.Perm qs)
    (hdistinct : (ps.map Parameter.name).Nodup) :
    (draft.run (ps.map .assign)).Agree (draft.run (qs.map .assign)) := by
  have hassign : ∀ ps : List Parameter, Call.keepNulls ∉ ps.map Call.assign := by simp
  refine ⟨?_, ?_, ?_⟩
  · rw [template_run, template_run]
  · rw [get?_run_assign, get?_run_assign]
    refine hperm.foldl_eq' (fun p hp q hq lookup => ?_) _
    by_cases hsame : p.name = q.name
    · rw [List.inj_on_of_nodup_map hdistinct hp hq hsame]
    · exact Function.update_comm hsame _ _ _
  · rw [keepsNulls_run _ (hassign ps), keepsNulls_run _ (hassign qs)]

/-- Whatever was called before, parameters of different names may be assigned in any order: the
query has the same text and the same parameters but for their order, and makes the same statement or
fails for the same name. -/
theorem build_run_of_perm (template : String) (calls : List Call) {ps qs : List Parameter}
    (hperm : ps.Perm qs) (hdistinct : (ps.map Parameter.name).Nodup) :
    let query := ((ofTemplate template).run (calls ++ ps.map .assign)).build
    let query' := ((ofTemplate template).run (calls ++ qs.map .assign)).build
    query.sql = query'.sql ∧ query.parameters.Perm query'.parameters ∧
      query.toStatement = query'.toStatement := by
  intro query query'
  have hagree := ((ofTemplate template).run calls).agree_run_of_perm hperm hdistinct
  rw [← run_append, ← run_append] at hagree
  exact ⟨hagree.build.sql, hagree.parameters_perm, hagree.build.toStatement⟩

/-- A name with two slots, one without any and one that is pruned. -/
theorem build_run_of_perm_rotated :
    let template := "SELECT :n FROM t WHERE a = :x AND b = :y OR c = :x"
    let ps : List Parameter := [.assigned "x" (.int 1) false, .assigned "z" (.int 2) false,
      .assigned "y" .null false]
    let qs : List Parameter := [.assigned "y" .null false, .assigned "x" (.int 1) false,
      .assigned "z" (.int 2) false]
    let query := ((ofTemplate template).run ([.bind (.bool true)] ++ ps.map .assign)).build
    let query' := ((ofTemplate template).run ([.bind (.bool true)] ++ qs.map .assign)).build
    ps.Perm qs ∧ (ps.map Parameter.name).Nodup ∧ query.sql = query'.sql ∧
      query.parameters.Perm query'.parameters ∧
      query.toStatement =
        .ok ⟨"SELECT ? FROM t WHERE a = ?  OR c = ?", [.bool true, .int 1, .int 1]⟩ ∧
      query'.toStatement =
        .ok ⟨"SELECT ? FROM t WHERE a = ?  OR c = ?", [.bool true, .int 1, .int 1]⟩ := by
  intro template ps qs query query'
  have hperm : ps.Perm qs := by decide
  have hdistinct : (ps.map Parameter.name).Nodup := by decide
  have hstatement : query.toStatement =
      .ok ⟨"SELECT ? FROM t WHERE a = ?  OR c = ?", [.bool true, .int 1, .int 1]⟩ := by
    decide +kernel
  obtain ⟨hsql, hparameters, hsame⟩ :=
    build_run_of_perm template [.bind (.bool true)] hperm hdistinct
  exact ⟨hperm, hdistinct, hsql, hparameters, hstatement, hsame ▸ hstatement⟩

end Draft

end SqlTemplate
