import SqlTemplate.Statement

namespace SqlTemplate

/-- The name of the placeholder that a piece is, if it is one. -/
def Piece.placeholderName? : Piece ColonName → Option String
  | .plain _ => none
  | .found _ word => word.placeholder?

/-- The placeholders of a text are those among its pieces. -/
theorem placeholderNames_eq_filterMap_pieces (text : List Char) :
    placeholderNames text =
      (ColonName.recogniser.pieces text).filterMap Piece.placeholderName? := by
  rw [placeholderNames, placeholders, Recogniser.scan, List.map_filterMap]
  generalize ColonName.recogniser.pieces text = pieces
  generalize 0 = start
  induction pieces generalizing start with
  | nil => rfl
  | cons piece pieces ih =>
    cases piece with
    | plain c => exact ih _
    | found written word =>
      rw [locate, List.filterMap_cons, List.filterMap_cons, Option.map_map, ih]
      cases word <;> rfl

namespace Query

variable {query : Query}

/-- The value of a name is missing in front of all others, if that of the others is not. -/
theorem exists_of_positional_eq_error {pieces : List (Piece ColonName)} {error : StatementError}
    (herror : query.positional pieces = .error error) :
    ∃ before name after, pieces.filterMap Piece.placeholderName? = before ++ name :: after ∧
      (∀ other ∈ before, ∃ value, query.valueOf other = .ok value) ∧
      query.valueOf name = .error error := by
  induction pieces with
  | nil => cases herror
  | cons piece pieces ih =>
    have hrest : ∀ {α : Type} {f : List Char × List Value → α},
        (do return f (← query.positional pieces)) = Except.error error →
          query.positional pieces = .error error := by
      intro α f hrun
      cases hpositional : query.positional pieces with
      | error error' =>
        rw [hpositional] at hrun
        obtain rfl := Except.error.inj hrun
        rfl
      | ok result =>
        rw [hpositional] at hrun
        cases hrun
    cases piece with
    | plain c => exact ih (hrest herror)
    | found written word =>
      cases word with
      | cast name => exact ih (hrest herror)
      | placeholder name =>
        cases hvalue : query.valueOf (String.ofList name) with
        | error error' =>
          rw [positional, hvalue] at herror
          obtain rfl := Except.error.inj herror
          exact ⟨[], _, _, rfl, by simp, hvalue⟩
        | ok value =>
          rw [positional, hvalue] at herror
          obtain ⟨before, other, after, hnames, hbefore, hother⟩ := ih (hrest herror)
          refine ⟨String.ofList name :: before, other, after, ?_, ?_, hother⟩
          · rw [List.filterMap_cons, hnames]
            rfl
          · exact List.forall_mem_cons.2 ⟨⟨value, hvalue⟩, hbefore⟩

/-- A name has no value just if nothing was bound to it. -/
theorem valueOf_eq_error_iff {name : String} {error : StatementError} :
    query.valueOf name = .error error ↔
      (∀ p ∈ query.get? name, p.bound = false) ∧ error = .unboundParameter name := by
  unfold valueOf
  cases query.get? name with
  | none =>
    simp only [Except.error.injEq, Option.mem_def, reduceCtorEq, false_imp_iff, implies_true,
      true_and, eq_comm]
  | some p =>
    cases hbound : p.bound with
    | true => simp [hbound]
    | false => simp only [hbound, Bool.false_eq_true, if_false, Except.error.injEq, Option.mem_def,
        Option.some.injEq, forall_eq', true_and, eq_comm]

/-- A query is no statement only if a placeholder of its text lacks a value, and the error names the
first of them. -/
theorem exists_of_toStatement_eq_error {error : StatementError}
    (herror : query.toStatement = .error error) :
    ∃ before name after, placeholderNames query.sql.toList = before ++ name :: after ∧
      (∀ other ∈ before, ∃ value, query.valueOf other = .ok value) ∧
      (∀ p ∈ query.get? name, p.bound = false) ∧ error = .unboundParameter name := by
  cases hpositional : query.positional (ColonName.recogniser.pieces query.sql.toList) with
  | ok result =>
    rw [toStatement, hpositional] at herror
    cases herror
  | error error' =>
    rw [toStatement, hpositional] at herror
    obtain rfl := Except.error.inj herror
    obtain ⟨before, name, after, hnames, hbefore, hname⟩ :=
      exists_of_positional_eq_error hpositional
    rw [← placeholderNames_eq_filterMap_pieces] at hnames
    exact ⟨before, name, after, hnames, hbefore, valueOf_eq_error_iff.1 hname⟩

end Query

end SqlTemplate
