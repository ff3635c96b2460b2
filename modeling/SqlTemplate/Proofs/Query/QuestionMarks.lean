import Mathlib.Data.List.Forall2
import SqlTemplate.Proofs.Placeholder.Cut
import SqlTemplate.Proofs.Query.Positional

namespace SqlTemplate

namespace Query

variable {query : Query}

/-- The query has a parameter of the name, which something was bound to. -/
def Binds (query : Query) (name : String) : Prop :=
  ∃ p, query.get? name = some p ∧ p.bound = true

theorem valueOf_eq_ok_iff {name : String} {value : Value} :
    query.valueOf name = .ok value ↔
      ∃ p, query.get? name = some p ∧ p.bound = true ∧ p.value = value := by
  unfold valueOf
  cases query.get? name with
  | none => simp
  | some p =>
    cases hbound : p.bound with
    | true => simp [hbound]
    | false => simp [hbound]

theorem binds_iff {name : String} :
    query.Binds name ↔ ∃ value, query.valueOf name = .ok value := by
  simp only [Binds, valueOf_eq_ok_iff]
  constructor
  · intro hbinds
    obtain ⟨p, hp, hbound⟩ := hbinds
    exact ⟨p.value, p, hp, hbound, rfl⟩
  · intro hvalue
    obtain ⟨_, p, hp, hbound, _⟩ := hvalue
    exact ⟨p, hp, hbound⟩

theorem not_binds_of_unbound {name : String} (hunbound : ∀ p ∈ query.get? name, p.bound = false) :
    ¬ query.Binds name := by
  intro hbinds
  obtain ⟨p, hp, hbound⟩ := hbinds
  rw [hunbound p hp] at hbound
  cases hbound

/-- The values belong to the names, each to the one in its place. -/
def ValuesOf (query : Query) : List String → List Value → Prop :=
  List.Forall₂ fun name value => query.valueOf name = .ok value

theorem ValuesOf.binds {names : List String} {values : List Value}
    (hvalues : query.ValuesOf names values) : ∀ name ∈ names, query.Binds name := by
  induction hvalues with
  | nil => exact nofun
  | cons hvalue _ ih =>
    exact List.forall_mem_cons.2 ⟨binds_iff.2 ⟨_, hvalue⟩, ih⟩

private theorem map_eq_ok_iff {ε α β : Type} {f : α → β} {outcome : Except ε α} {b : β} :
    f <$> outcome = .ok b ↔ ∃ a, outcome = .ok a ∧ f a = b := by
  cases outcome with
  | error e => exact iff_of_false nofun (by simp)
  | ok a => simp

section Positional

variable {pieces : List (Piece ColonName)} {sql : List Char} {values : List Value}

theorem positional_plain (c : Char) (pieces : List (Piece ColonName)) :
    query.positional (.plain c :: pieces) =
      (fun rest => (c :: rest.1, rest.2)) <$> query.positional pieces := rfl

theorem positional_cast (written name : List Char) (pieces : List (Piece ColonName)) :
    query.positional (.found written (.cast name) :: pieces) =
      (fun rest => (written ++ rest.1, rest.2)) <$> query.positional pieces := rfl

theorem positional_placeholder (written name : List Char) (pieces : List (Piece ColonName)) :
    query.positional (.found written (.placeholder name) :: pieces) =
      query.valueOf (String.ofList name) >>= fun value =>
        (fun rest => ('?' :: rest.1, value :: rest.2)) <$> query.positional pieces := rfl

/-- What is kept of a text in front of its other pieces. -/
private theorem positional_prepend_iff (front : List Char) {cut : Cut}
    (hpieces : ∀ sql values, query.positional pieces = .ok (sql, values) ↔
      sql = cut.text Cut.marked ∧ query.ValuesOf cut.names values) :
    (fun rest => (front ++ rest.1, rest.2)) <$> query.positional pieces = .ok (sql, values) ↔
      sql = (cut.prepend front).text Cut.marked ∧
        query.ValuesOf (cut.prepend front).names values := by
  rw [map_eq_ok_iff, Cut.text_prepend, Cut.names_prepend]
  constructor
  · intro hrest
    obtain ⟨⟨sql', values'⟩, hpositional, heq⟩ := hrest
    obtain ⟨rfl, rfl⟩ := Prod.mk.inj heq
    obtain ⟨rfl, hvalues⟩ := (hpieces sql' values').1 hpositional
    exact ⟨rfl, hvalues⟩
  · intro hboth
    obtain ⟨rfl, hvalues⟩ := hboth
    exact ⟨_, (hpieces _ _).2 ⟨rfl, hvalues⟩, rfl⟩

/-- What the pieces of a text are made into: question marks and values for the placeholders. -/
theorem positional_eq_ok_iff :
    query.positional pieces = .ok (sql, values) ↔
      sql = (Cut.ofPieces pieces).text Cut.marked ∧
        query.ValuesOf (Cut.ofPieces pieces).names values := by
  induction pieces generalizing sql values with
  | nil =>
    have hnil : query.ValuesOf [] values ↔ [] = values := by
      rw [ValuesOf, List.forall₂_nil_left_iff, eq_comm]
    have hsql : (Cut.ofPieces []).text Cut.marked = [] := rfl
    have hnames : (Cut.ofPieces []).names = [] := rfl
    rw [positional, Except.ok.injEq, Prod.mk.injEq, hsql, hnames, hnil, @eq_comm _ [] sql]
  | cons piece pieces ih =>
    have hpieces := fun sql values => @ih sql values
    cases piece with
    | plain c =>
      rw [positional_plain, Cut.ofPieces_plain]
      exact positional_prepend_iff [c] hpieces
    | found written word =>
      cases word with
      | cast name =>
        rw [positional_cast, Cut.ofPieces_cast]
        exact positional_prepend_iff written hpieces
      | placeholder name =>
        rw [positional_placeholder, Cut.ofPieces_placeholder, Cut.text_cons]
        cases hvalue : query.valueOf (String.ofList name) with
        | error error =>
          apply iff_of_false
          · intro herror
            cases herror
          · intro hboth
            obtain ⟨_, hvalues⟩ := hboth
            obtain ⟨value, hok⟩ := binds_iff.1 (hvalues.binds _ List.mem_cons_self)
            rw [hvalue] at hok
            cases hok
        | ok value =>
          change (fun rest => ('?' :: rest.1, value :: rest.2)) <$> query.positional pieces =
            .ok (sql, values) ↔ _
          rw [map_eq_ok_iff]
          constructor
          · intro hrest
            obtain ⟨⟨sql', values'⟩, hpositional, heq⟩ := hrest
            obtain ⟨rfl, rfl⟩ := Prod.mk.inj heq
            obtain ⟨rfl, hvalues⟩ := ih.1 hpositional
            exact ⟨rfl, .cons hvalue hvalues⟩
          · intro hboth
            obtain ⟨rfl, hvalues⟩ := hboth
            cases hvalues with
            | cons hfirst hvalues =>
              rw [hvalue] at hfirst
              obtain rfl := Except.ok.inj hfirst
              exact ⟨_, ih.2 ⟨rfl, hvalues⟩, rfl⟩

end Positional

/-- A statement is the text of its query with question marks, and the values of the names in the
order of the text. -/
theorem toStatement_eq_ok_iff {statement : Statement} :
    query.toStatement = .ok statement ↔
      statement.sql.toList = (cutOf query.sql.toList).text Cut.marked ∧
        query.ValuesOf (cutOf query.sql.toList).names statement.values := by
  have hmap : query.toStatement =
      (fun made => (⟨String.ofList made.1, made.2⟩ : Statement)) <$>
        query.positional (ColonName.recogniser.pieces query.sql.toList) := rfl
  rw [hmap, map_eq_ok_iff]
  constructor
  · intro hmade
    obtain ⟨⟨sql, values⟩, hpositional, rfl⟩ := hmade
    rw [String.toList_ofList]
    exact positional_eq_ok_iff.1 hpositional
  · intro hboth
    refine ⟨(statement.sql.toList, statement.values), positional_eq_ok_iff.2 hboth, ?_⟩
    rw [String.ofList_toList]

/-- A query is made into a statement just if something was bound to each name in its text. -/
theorem exists_toStatement_iff :
    (∃ statement, query.toStatement = .ok statement) ↔
      ∀ name ∈ placeholderNames query.sql.toList, query.Binds name := by
  rw [← (cutOf_of query.sql.toList).names_eq]
  constructor
  · intro hmade
    obtain ⟨statement, hstatement⟩ := hmade
    exact (toStatement_eq_ok_iff.1 hstatement).2.binds
  · intro hbinds
    cases houtcome : query.toStatement with
    | ok statement => exact ⟨statement, rfl⟩
    | error error =>
      obtain ⟨before, name, after, hnames, _, hunbound, _⟩ :=
        exists_of_toStatement_eq_error houtcome
      have hmem : name ∈ (cutOf query.sql.toList).names := by
        rw [(cutOf_of query.sql.toList).names_eq, hnames]
        simp
      exact absurd (hbinds name hmem) (not_binds_of_unbound hunbound)

/-- A text is cut at its placeholders in one way. Just if the query has a bound parameter for each
of them, the first that has the name, it is made into a statement: the same text with a question
mark for each, which no name goes on behind and no placeholder stands beside, and their values in
order. Otherwise the error names the first placeholder without a bound parameter. Nothing is assumed
of the query, so the parameters may be others than those that building a draft keeps. -/
theorem toStatement_by_placeholders (query : Query) :
    ∃ cut : Cut, cut.Of query.sql.toList ∧
      (∀ other : Cut, other.Of query.sql.toList → other = cut) ∧
      ((∃ statement, query.toStatement = .ok statement) ↔
        ∀ name ∈ cut.names,
          ∃ p, query.parameters.find? (fun p => p.name == name) = some p ∧ p.bound = true) ∧
      (∀ statement, query.toStatement = .ok statement →
        statement.sql.toList = cut.text Cut.marked ∧
        List.Forall₂ (fun name value =>
          ∃ p, query.parameters.find? (fun p => p.name == name) = some p ∧ p.bound = true ∧
            p.value = value) cut.names statement.values ∧
        placeholders statement.sql.toList = [] ∧ cut.EndsNames) ∧
      ∀ error, query.toStatement = .error error →
        ∃ before name after, cut.names = before ++ name :: after ∧
          (∀ other ∈ before,
            ∃ p, query.parameters.find? (fun p => p.name == other) = some p ∧ p.bound = true) ∧
          (∀ p, query.parameters.find? (fun p => p.name == name) = some p → p.bound = false) ∧
          error = .unboundParameter name := by
  have hof := cutOf_of query.sql.toList
  refine ⟨cutOf query.sql.toList, hof, fun other hother => hother.unique hof, ?_, ?_, ?_⟩
  · rw [hof.names_eq]
    exact exists_toStatement_iff
  · intro statement hstatement
    obtain ⟨hsql, hvalues⟩ := toStatement_eq_ok_iff.1 hstatement
    refine ⟨hsql, hvalues.imp fun _ _ hvalue => valueOf_eq_ok_iff.1 hvalue, ?_,
      endsNames_cutOf query.sql.toList⟩
    rw [hsql]
    exact placeholders_marked query.sql.toList
  · intro error herror
    obtain ⟨before, name, after, hnames, hbefore, hname⟩ := exists_of_toStatement_eq_error herror
    rw [hof.names_eq]
    exact ⟨before, name, after, hnames, fun other hother => binds_iff.2 (hbefore other hother),
      hname⟩

/-- A cast, a name that stands twice in the text, and a query that lacks a value for a name. -/
theorem toStatement_by_placeholders_cast :
    let query : Query := ⟨"SELECT a::text FROM t WHERE b = :x AND c = :y OR d = :x",
      [.assigned "y" (.text "v") false, .assigned "x" (.int 1) false]⟩
    let lacking : Query := ⟨query.sql, [.unbound "y", .assigned "x" (.int 1) false]⟩
    let statement : Statement := ⟨"SELECT a::text FROM t WHERE b = ? AND c = ? OR d = ?",
      [.int 1, .text "v", .int 1]⟩
    query.toStatement = .ok statement ∧
      (∃ cut : Cut, cut.Of query.sql.toList ∧ cut.names = ["x", "y", "x"] ∧
        statement.sql.toList = cut.text Cut.marked ∧ placeholders statement.sql.toList = []) ∧
      lacking.toStatement = .error (.unboundParameter "y") := by
  intro query lacking statement
  have hstatement : query.toStatement = .ok statement := by decide +kernel
  obtain ⟨cut, hof, _, _, hmade, _⟩ := toStatement_by_placeholders query
  obtain ⟨hsql, _, hnone, _⟩ := hmade statement hstatement
  have hnames : placeholderNames query.sql.toList = ["x", "y", "x"] := by decide +kernel
  exact ⟨hstatement, ⟨cut, hof, hof.names_eq.trans hnames, hsql, hnone⟩, by decide +kernel⟩

end Query

end SqlTemplate
