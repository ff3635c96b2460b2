import Mathlib.Data.List.Forall2
import SqlTemplate.Proofs.Query.Slots
import SqlTemplate.Statement

namespace SqlTemplate

/-- Both values are absent, or neither is. -/
def Value.Alike (v w : Value) : Prop :=
  v.isNull = w.isNull

/-- Two parameters that differ at most in the value that is given. -/
structure Parameter.Alike (p q : Parameter) : Prop where
  name : p.name = q.name
  value : p.value.Alike q.value
  acceptsNull : p.acceptsNull = q.acceptsNull
  bound : p.bound = q.bound

theorem Parameter.Alike.refl (p : Parameter) : p.Alike p :=
  ⟨rfl, rfl, rfl, rfl⟩

theorem Parameter.Alike.isPrunable_eq {p q : Parameter} (halike : p.Alike q) :
    p.isPrunable = q.isPrunable := by
  have hvalue : p.isNull = q.isNull := halike.value
  rw [isPrunable, isPrunable, hvalue, halike.acceptsNull]

section Slots

variable {ps qs : List Parameter}

theorem find?_of_alike (halike : List.Forall₂ Parameter.Alike ps qs) (name : String) :
    Option.Rel Parameter.Alike (ps.find? fun p => p.name == name)
      (qs.find? fun q => q.name == name) := by
  induction halike with
  | nil => exact .none
  | @cons p q _ _ hhead _ ih =>
    rw [List.find?_cons, List.find?_cons, hhead.name]
    cases q.name == name with
    | true => exact .some hhead
    | false => exact ih

theorem filter_of_alike (halike : List.Forall₂ Parameter.Alike ps qs) (keeps : String → Bool) :
    List.Forall₂ Parameter.Alike (ps.filter fun p => keeps p.name)
      (qs.filter fun q => keeps q.name) := by
  refine List.rel_filter ?_ halike
  intro p q hpq
  simp only [hpq.name]

theorem firstOfEachName_of_alike (halike : List.Forall₂ Parameter.Alike ps qs) :
    List.Forall₂ Parameter.Alike (firstOfEachName ps) (firstOfEachName qs) := by
  induction halike with
  | nil => exact .nil
  | @cons p q _ _ hhead _ ih =>
    rw [firstOfEachName, firstOfEachName, hhead.name]
    exact .cons hhead (filter_of_alike ih fun name => name != q.name)

/-- A value is bound to the same slot, if there is one left. -/
theorem bindFirst?_of_alike (halike : List.Forall₂ Parameter.Alike ps qs) {v w : Value}
    (hvalue : v.Alike w) :
    Option.Rel (List.Forall₂ Parameter.Alike) (Bindings.bindFirst? v ps)
      (Bindings.bindFirst? w qs) := by
  induction halike with
  | nil => exact .none
  | @cons p q _ _ hhead htail ih =>
    rw [Bindings.bindFirst?, Bindings.bindFirst?, hhead.bound]
    split
    · generalize Bindings.bindFirst? v _ = rest, Bindings.bindFirst? w _ = rest' at ih ⊢
      cases ih with
      | none => exact .none
      | some hrest => exact .some (.cons hhead hrest)
    · exact .some (.cons ⟨hhead.name, hvalue, hhead.acceptsNull, rfl⟩ htail)

end Slots

namespace Draft

/-- Two calls that differ at most in the value that is given. -/
inductive Call.Alike : Call → Call → Prop where
  | bind {v w : Value} : v.Alike w → Alike (.bind v) (.bind w)
  | assign {p q : Parameter} : p.name = q.name → p.value.Alike q.value →
      p.acceptsNull = q.acceptsNull → Alike (.assign p) (.assign q)
  | keepNulls : Alike .keepNulls .keepNulls

/-- Two drafts that differ at most in the values that are given. -/
structure Alike (draft draft' : Draft) : Prop where
  template : draft.template = draft'.template
  slots : List.Forall₂ Parameter.Alike draft.bindings.slots draft'.bindings.slots
  keepsNulls : draft.keepsNulls = draft'.keepsNulls

end Draft

/-- Two queries of one text, whose parameters differ at most in the values that are given. -/
structure Query.Alike (query query' : Query) : Prop where
  sql : query.sql = query'.sql
  parameters : List.Forall₂ Parameter.Alike query.parameters query'.parameters

namespace Draft.Alike

variable {draft draft' : Draft}

theorem refl (draft : Draft) : draft.Alike draft :=
  ⟨rfl, List.forall₂_same.2 fun p _ => .refl p, rfl⟩

theorem bind (halike : draft.Alike draft') {v w : Value} (hvalue : v.Alike w) :
    (draft.bind v).Alike (draft'.bind w) := by
  have hslots := bindFirst?_of_alike halike.slots hvalue
  rw [Draft.bind_eq, Draft.bind_eq]
  generalize Bindings.bindFirst? v _ = slots, Bindings.bindFirst? w _ = slots' at hslots ⊢
  cases hslots with
  | none => exact halike
  | some hslots => exact ⟨halike.template, hslots, halike.keepsNulls⟩

theorem assign (halike : draft.Alike draft') {p q : Parameter} (hname : p.name = q.name)
    (hvalue : p.value.Alike q.value) (haccepts : p.acceptsNull = q.acceptsNull) :
    (draft.assign p).Alike (draft'.assign q) := by
  refine ⟨halike.template, List.rel_append ?_ (.cons ⟨hname, hvalue, haccepts, rfl⟩ .nil),
    halike.keepsNulls⟩
  rw [hname]
  exact filter_of_alike halike.slots fun name => name != q.name

/-- A call keeps drafts alike. -/
theorem apply (halike : draft.Alike draft') {call call' : Call} (hcall : call.Alike call') :
    (call.apply draft).Alike (call'.apply draft') := by
  cases hcall with
  | bind hvalue => exact halike.bind hvalue
  | assign hname hvalue haccepts => exact halike.assign hname hvalue haccepts
  | keepNulls => exact ⟨halike.template, halike.slots, rfl⟩

/-- So do calls one after the other. -/
theorem run (halike : draft.Alike draft') {calls calls' : List Call}
    (hcalls : List.Forall₂ Call.Alike calls calls') :
    (draft.run calls).Alike (draft'.run calls') := by
  induction hcalls generalizing draft draft' with
  | nil => exact halike
  | cons hhead _ ih => exact ih (halike.apply hhead)

/-- The same names lack a value. -/
theorem lacks_eq (halike : draft.Alike draft') :
    draft.bindings.lacks = draft'.bindings.lacks := by
  funext name
  have hslot := find?_of_alike halike.slots name
  rw [Bindings.lacks, Bindings.lacks, Bindings.get?, Bindings.get?]
  generalize draft.bindings.slots.find? _ = slot, draft'.bindings.slots.find? _ = slot' at hslot ⊢
  cases hslot with
  | none => rfl
  | some hslot => exact hslot.isPrunable_eq

/-- Pruning comes out the same, down to what it reports. -/
theorem prune_eq (halike : draft.Alike draft') : draft.prune = draft'.prune := by
  rw [Draft.prune, Draft.prune, halike.keepsNulls, halike.lacks_eq, halike.template]

theorem build (halike : draft.Alike draft') : draft.build.Alike draft'.build := by
  have hsql : draft.build.sql = draft'.build.sql := congrArg Pruned.sql halike.prune_eq
  refine ⟨hsql, firstOfEachName_of_alike ?_⟩
  rw [halike.prune_eq]
  exact filter_of_alike halike.slots fun name =>
    (placeholderNames draft'.prune.sql.toList).contains name

end Draft.Alike

/-- The same error, or two results that are related. -/
inductive SameOutcome {ε α β : Type} (related : α → β → Prop) : Except ε α → Except ε β → Prop where
  | ok {a : α} {b : β} : related a b → SameOutcome related (.ok a) (.ok b)
  | error (e : ε) : SameOutcome related (.error e) (.error e)

theorem SameOutcome.bind {ε α β γ δ : Type} {related : α → β → Prop} {related' : γ → δ → Prop}
    {x : Except ε α} {y : Except ε β} {f : α → Except ε γ} {g : β → Except ε δ}
    (hsame : SameOutcome related x y)
    (hnext : ∀ a b, related a b → SameOutcome related' (f a) (g b)) :
    SameOutcome related' (x >>= f) (y >>= g) := by
  cases hsame with
  | ok hrelated => exact hnext _ _ hrelated
  | error e => exact .error e

/-- Two statements of one text with as many values, absent in the same places. -/
structure Statement.Alike (statement statement' : Statement) : Prop where
  sql : statement.sql = statement'.sql
  values : List.Forall₂ Value.Alike statement.values statement'.values

namespace Query.Alike

variable {query query' : Query}

theorem valueOf (halike : query.Alike query') (name : String) :
    SameOutcome Value.Alike (query.valueOf name) (query'.valueOf name) := by
  have hparameter := find?_of_alike halike.parameters name
  rw [Query.valueOf, Query.valueOf, Query.get?, Query.get?]
  generalize query.parameters.find? _ = found, query'.parameters.find? _ = found' at hparameter ⊢
  cases hparameter with
  | none => exact .error _
  | @some p q hpq =>
    simp only [hpq.bound]
    split
    · exact .ok hpq.value
    · exact .error _

theorem positional (halike : query.Alike query') (pieces : List (Piece ColonName)) :
    SameOutcome (fun x y => x.1 = y.1 ∧ List.Forall₂ Value.Alike x.2 y.2)
      (query.positional pieces) (query'.positional pieces) := by
  induction pieces with
  | nil => exact .ok ⟨rfl, .nil⟩
  | cons piece rest ih =>
    cases piece with
    | plain c =>
      refine ih.bind fun x y hrest => ?_
      exact .ok ⟨congrArg (c :: ·) hrest.1, hrest.2⟩
    | found written word =>
      cases word with
      | cast name =>
        refine ih.bind fun x y hrest => ?_
        exact .ok ⟨congrArg (written ++ ·) hrest.1, hrest.2⟩
      | placeholder name =>
        refine (halike.valueOf (String.ofList name)).bind fun v w hvalue => ?_
        refine ih.bind fun x y hrest => ?_
        exact .ok ⟨congrArg ('?' :: ·) hrest.1, .cons hvalue hrest.2⟩

theorem toStatement (halike : query.Alike query') :
    SameOutcome Statement.Alike query.toStatement query'.toStatement := by
  rw [Query.toStatement, Query.toStatement, halike.sql]
  refine (halike.positional _).bind fun x y hxy => ?_
  exact .ok ⟨congrArg String.ofList hxy.1, hxy.2⟩

end Query.Alike

namespace Draft

/-- Calls that differ at most in the values that are given build the same text with the same
parameters, and either the same placeholder lacks a value in both, or both make statements with the
same text and as many values. Only whether a value is absent bears on the text. The calls may bind
too many values, and names that the template does not have. -/
theorem build_run_of_alike (template : String) {calls calls' : List Call}
    (hcalls : List.Forall₂ Call.Alike calls calls') :
    let query := ((ofTemplate template).run calls).build
    let query' := ((ofTemplate template).run calls').build
    query.sql = query'.sql ∧ List.Forall₂ Parameter.Alike query.parameters query'.parameters ∧
      ((∃ error, query.toStatement = .error error ∧ query'.toStatement = .error error) ∨
        ∃ statement statement', query.toStatement = .ok statement ∧
          query'.toStatement = .ok statement' ∧ statement.sql = statement'.sql ∧
            statement.values.length = statement'.values.length) := by
  intro query query'
  have hquery : query.Alike query' := ((Alike.refl (ofTemplate template)).run hcalls).build
  refine ⟨hquery.sql, hquery.parameters, ?_⟩
  have hstatement := hquery.toStatement
  generalize query.toStatement = outcome, query'.toStatement = outcome' at hstatement ⊢
  cases hstatement with
  | error error => exact .inl ⟨error, rfl, rfl⟩
  | ok hboth => exact .inr ⟨_, _, rfl, rfl, hboth.sql, hboth.values.length_eq⟩

/-- A value too many, a name that takes the place of a slot, and values of other kinds. -/
theorem build_run_of_alike_overridden :
    let template := "SELECT :n FROM t WHERE a = :x AND b = :y"
    let calls : List Call := [.bind (.int 1), .bind .null,
      .assign (.assigned "y" (.text "v") false), .bind (.bool true)]
    let calls' : List Call := [.bind (.text "; DROP TABLE t"), .bind .null,
      .assign (.assigned "y" (.int 0) false), .bind (.blob [])]
    List.Forall₂ Call.Alike calls calls' ∧
      ((ofTemplate template).run calls).build.toStatement =
        .ok ⟨"SELECT ? FROM t  WHERE b = ?", [.int 1, .text "v"]⟩ ∧
      ∃ statement, ((ofTemplate template).run calls').build.toStatement = .ok statement ∧
        statement.sql = "SELECT ? FROM t  WHERE b = ?" ∧ statement.values.length = 2 := by
  intro template calls calls'
  have hcalls : List.Forall₂ Call.Alike calls calls' :=
    .cons (.bind rfl) (.cons (.bind rfl) (.cons (.assign rfl rfl rfl) (.cons (.bind rfl) .nil)))
  have hfirst : ((ofTemplate template).run calls).build.toStatement =
      .ok ⟨"SELECT ? FROM t  WHERE b = ?", [.int 1, .text "v"]⟩ := by decide +kernel
  obtain ⟨_, _, ⟨error, herror, _⟩ | ⟨statement, statement', hok, hok', hsql, hlength⟩⟩ :=
    build_run_of_alike template hcalls
  · rw [hfirst] at herror
    cases herror
  · rw [hfirst] at hok
    obtain rfl := Except.ok.inj hok
    exact ⟨hcalls, hfirst, statement', hok', hsql.symm, hlength.symm⟩

end Draft

end SqlTemplate
