import SqlTemplate.Proofs.Query.Unbound

namespace SqlTemplate

section FirstOfEachName

/-- The parameters stand in the order in which their names occur for the first time. -/
theorem pairwise_firstOfEachName (ps : List Parameter) :
    (firstOfEachName ps).Pairwise fun p q =>
      (ps.map Parameter.name).idxOf p.name < (ps.map Parameter.name).idxOf q.name := by
  induction ps with
  | nil => exact .nil
  | cons p rest ih =>
    have hother : ∀ q ∈ (firstOfEachName rest).filter (fun q => q.name != p.name),
        ((p :: rest).map Parameter.name).idxOf q.name =
          (rest.map Parameter.name).idxOf q.name + 1 := by
      intro q hq
      have hne : p.name ≠ q.name := Ne.symm (bne_iff_ne.1 (List.mem_filter.1 hq).2)
      rw [List.map_cons, List.idxOf_cons_ne _ hne]
    refine List.pairwise_cons.2 ⟨fun q hq => ?_, ?_⟩
    · rw [hother q hq, List.map_cons, List.idxOf_cons_self]
      exact Nat.succ_pos _
    · refine (ih.sublist List.filter_sublist).imp_of_mem fun {q r} hq hr hlt => ?_
      rw [hother q hq, hother r hr]
      exact Nat.succ_lt_succ hlt

/-- The first parameters of the names that are kept are those that are kept of the first
parameters. -/
theorem firstOfEachName_filter (keeps : String → Bool) (ps : List Parameter) :
    firstOfEachName (ps.filter fun p => keeps p.name) =
      (firstOfEachName ps).filter fun p => keeps p.name := by
  induction ps with
  | nil => rfl
  | cons p rest ih =>
    cases hkeeps : keeps p.name with
    | true =>
      simp only [firstOfEachName, List.filter_cons, hkeeps, if_true]
      rw [ih, List.filter_comm]
    | false =>
      simp only [firstOfEachName, List.filter_cons, hkeeps, Bool.false_eq_true, if_false]
      rw [ih, List.filter_filter]
      refine List.filter_congr fun q _ => ?_
      -- A name that is kept is not that of the parameter in front.
      cases hkept : keeps q.name with
      | false => rfl
      | true =>
        have hne : q.name ≠ p.name := by
          intro heq
          rw [heq, hkeeps] at hkept
          cases hkept
        simp [hne]

end FirstOfEachName

namespace Draft

theorem parameters_build (draft : Draft) :
    draft.build.parameters = (firstOfEachName draft.bindings.slots).filter fun p =>
      (placeholderNames draft.build.sql.toList).contains p.name :=
  firstOfEachName_filter _ draft.bindings.slots

/-- A built query has no parameter for a name that its text does not have. -/
theorem get?_build_eq_none {draft : Draft} {name : String}
    (hname : name ∉ placeholderNames draft.build.sql.toList) : draft.build.get? name = none := by
  rw [Query.get?, List.find?_eq_none]
  intro p hp hsame
  rw [parameters_build] at hp
  have hreferred := List.contains_iff_mem.1 (List.mem_filter.1 hp).2
  rw [eq_of_beq hsame] at hreferred
  exact hname hreferred

/-- Whatever was called on a draft, the built query has the pruned template for its text and keeps
some of the slots, in their order and no two of one name. A name has the same slot in the query as
in the draft, the first, if the built text has a placeholder of the name, and else none. The slots
may be any, also such as no calls lead to. -/
theorem build_retains_first_slots (draft : Draft) :
    let query := draft.build
    let names := draft.bindings.slots.map Parameter.name
    query.sql = draft.prune.sql ∧ query.parameters.Sublist draft.bindings.slots ∧
      (query.parameters.map Parameter.name).Nodup ∧
      (query.parameters.Pairwise fun p q => names.idxOf p.name < names.idxOf q.name) ∧
      ∀ name, query.get? name =
        if name ∈ placeholderNames query.sql.toList then draft.get? name else none := by
  intro query names
  have hsublist : query.parameters.Sublist (firstOfEachName draft.bindings.slots) := by
    rw [show query.parameters = _ from parameters_build draft]
    exact List.filter_sublist
  have hordered := (pairwise_firstOfEachName draft.bindings.slots).sublist hsublist
  refine ⟨rfl, hsublist.trans (firstOfEachName_sublist _), ?_, hordered, fun name => ?_⟩
  · refine List.pairwise_map.2 (hordered.imp fun hlt heq => ?_)
    rw [heq] at hlt
    exact Nat.lt_irrefl _ hlt
  · split
    · next hname => exact get?_build hname
    · next hname => exact get?_build_eq_none hname

/-- A name that is overridden, and one that lacks a value in the clause it is pruned from, still
stands elsewhere in the text, and has a second slot with a value. -/
theorem build_retains_first_slots_overridden :
    let draft := (ofTemplate "SELECT :n, :a FROM t WHERE a = :a AND b = :b AND c = :c").run
      [.bind (.int 5), .bind .null, .bind (.int 7), .bind (.int 1),
        .assign (.assigned "n" (.text "m") true)]
    draft.build.sql = "SELECT :n, :a FROM t  WHERE b = :b" ∧
      draft.build.sql = draft.prune.sql ∧
      draft.build.parameters =
        [⟨"a", .null, false, true⟩, ⟨"b", .int 1, false, true⟩, ⟨"n", .text "m", true, true⟩] ∧
      draft.build.get? "a" = some ⟨"a", .null, false, true⟩ ∧
      draft.build.get? "n" = some ⟨"n", .text "m", true, true⟩ ∧ draft.build.get? "c" = none := by
  intro draft
  obtain ⟨hsql, _, _, _, hget⟩ := build_retains_first_slots draft
  have ha : "a" ∈ placeholderNames draft.build.sql.toList := by decide +kernel
  have hn : "n" ∈ placeholderNames draft.build.sql.toList := by decide +kernel
  have hc : "c" ∉ placeholderNames draft.build.sql.toList := by decide +kernel
  refine ⟨by decide +kernel, hsql, by decide +kernel, ?_, ?_, ?_⟩
  · rw [hget, if_pos ha]
    decide +kernel
  · rw [hget, if_pos hn]
    decide +kernel
  · rw [hget, if_neg hc]

end Draft

end SqlTemplate
