import SqlTemplate.Proofs.Filter.Run
import SqlTemplate.Proofs.Text.Trim
import SqlTemplate.Query

namespace SqlTemplate.Filter

open Connector Pruning

/-- The edits that pruning makes to a filter, from left to right. -/
def edits (filter : Filter) (lacks : String → Bool) : List Edit :=
  if filter.first.condition.survives lacks then
    Joined.editsBehind lacks false (filter.before ++ filter.first.written) filter.others
  else
    filter.first.removals filter.before ++
      Joined.editsBehind lacks (filter.others.any (Joined.isKeptClause lacks))
        (filter.before ++ filter.first.written) filter.others

section Run

variable (filter : Filter) (lacks : String → Bool)

theorem ahead_others : Ahead filter.written (filter.before ++ filter.first.written) filter.others
    filter.after :=
  ⟨by simp [written], filter.isJoining, filter.noColon, filter.endsName⟩

theorem joinedAt_first : JoinedAt filter.written filter.before filter.first
    (Joined.writtenAll filter.others ++ filter.after) := by
  refine ⟨by simp [written], filter.not_isWordBeside_before,
    (writtenAll_stops filter.others filter.noColon filter.endsName).1, ?_⟩
  have hnone := upperBoundAt?_eq_none (filter.before ++ filter.first.written) filter.others
    filter.noColon
  rwa [← filter.ahead_others.text_eq] at hnone

/-- In front of the filter there is nothing to promote. -/
theorem covered_before : Covered filter.written [] filter.before := by
  intro joining hmem hbefore
  exfalso
  obtain ⟨front, word, rest, hat⟩ := mem_joiningSpans_iff.1 hmem
  obtain ⟨connector, _, hspells⟩ := hat.joining
  have htext : filter.before ++ (filter.first.written ++ Joined.writtenAll filter.others ++
      filter.after) = front ++ (word ++ rest) := by
    rw [← List.append_assoc front, ← hat.text_eq]
    simp [written]
  refine not_standsFree_before hspells htext ?_ hat.free
  rw [hat.span_eq] at hbefore
  exact hbefore

/-- Pruning makes the edits of the filter, in some order, and prunes its names. -/
theorem yields_steps : Yields (steps lacks filter.written) (filter.edits lacks)
    (filter.removedNames lacks) := by
  have hstart : Progress.start.removedTo ≤ byteLen filter.before := Nat.zero_le _
  have hstart' : Progress.start.removedTo ≤ byteLen (filter.before ++ filter.first.written) :=
    Nat.zero_le _
  rw [steps, clauses_written, Filter.clauses]
  cases hcondition : filter.first.condition with
  | constant c =>
    have hrest := run_settled lacks filter.others filter.ahead_others hstart' rfl
    rw [stepsFrom_constant hcondition]
    simpa [edits, removedNames, Joined.removedNames, hcondition, Condition.survives] using hrest
  | compared c =>
    cases hlacks : lacks c.placeholder with
    | true =>
      have howes : (Progress.start.after
          (c.removal filter.first.connector filter.first.keyword filter.before)).owesWhere = true := by
        rw [Compared.owesWhere_after_removal, filter.isWhere]
        rfl
      have hremoved : (Progress.start.after
          (c.removal filter.first.connector filter.first.keyword filter.before)).removedTo ≤
            byteLen (filter.before ++ filter.first.written) := by
        rw [Compared.removedTo_after_removal hcondition]
      have hcovered := filter.covered_before.append_removed hcondition filter.joinedAt_first
      have htaken : ∀ span ∈ (filter.first.removals filter.before).map Edit.span ++ [],
          span.stop ≤ byteLen (filter.before ++ filter.first.written) := by
        intro span hspan
        rw [List.append_nil] at hspan
        obtain ⟨e, he, rfl⟩ := List.mem_map.1 hspan
        exact (within_of_mem_removals he).2
      rw [stepsFrom_removed filter.joinedAt_first hcondition hlacks hstart]
      have hrest := run_unsettled lacks filter.others filter.ahead_others hremoved howes
        (by rw [Compared.taken_after_removal hcondition]; exact hcovered)
        (by rw [Compared.taken_after_removal hcondition]; exact htaken)
      simpa [edits, removedNames, Joined.removedNames, hcondition, Condition.survives, hlacks,
        Condition.names] using hrest.cons_removal hcondition
    | false =>
      have hrest := @run_settled lacks filter.written filter.after filter.others _
        (Progress.start.after (c.keeping filter.first filter.before none)) filter.ahead_others
        hstart' rfl
      have hnone : none = if Progress.start.owesWhere then
          firstJoiningOutside? Progress.start.taken filter.written else none := rfl
      rw [stepsFrom_kept hcondition hlacks hstart hnone]
      simpa [edits, removedNames, Joined.removedNames, hcondition, Condition.survives, hlacks] using
        hrest.cons_keeping none

end Run

/-- A condition that does not stay is a clause. -/
theorem Condition.exists_compared_of_not_survives {lacks : String → Bool} {condition : Condition}
    (hgone : ¬ condition.survives lacks) : ∃ c, condition = .compared c := by
  cases condition with
  | compared c => exact ⟨c, rfl⟩
  | constant c => exact absurd rfl hgone

section Copy

/-- Edits within a stretch, each behind the one before. -/
structure Row (edits : List Edit) (start stop : Nat) : Prop where
  nonempty : ∀ e ∈ edits, e.span.start < e.span.stop
  within : ∀ e ∈ edits, start ≤ e.span.start ∧ e.span.stop ≤ stop
  pairwise : edits.Pairwise fun e f => e.span.stop ≤ f.span.start

theorem Row.append {edits edits' : List Edit} {start middle stop : Nat}
    (hrow : Row edits start middle) (hrow' : Row edits' middle stop) (hstart : start ≤ middle)
    (hstop : middle ≤ stop) : Row (edits ++ edits') start stop := by
  refine ⟨fun e he => ?_, fun e he => ?_, List.pairwise_append.2
    ⟨hrow.pairwise, hrow'.pairwise, fun e he f hf => ?_⟩⟩
  · obtain he | he := List.mem_append.1 he
    · exact hrow.nonempty e he
    · exact hrow'.nonempty e he
  · obtain he | he := List.mem_append.1 he
    · have hwithin := hrow.within e he
      omega
    · have hwithin := hrow'.within e he
      omega
  · exact Nat.le_trans (hrow.within e he).2 (hrow'.within f hf).1

theorem Joined.row_removals (joined : Joined) (front : List Char) :
    Row (joined.removals front) (byteLen front) (byteLen (front ++ joined.written)) := by
  refine ⟨fun e he => ?_, fun e he => within_of_mem_removals he, ?_⟩
  · unfold removals at he
    split at he
    · next c hcompared =>
      obtain rfl | he := List.mem_cons.1 he
      · have hpos := byteLen_pos (c.reading joined.connector joined.keyword).written_ne_nil
        simp only [Edit.span, Span.behind_start, Span.behind_stop]
        omega
      · obtain ⟨bound, _, rfl⟩ := List.mem_map.1 he
        have hpos : 0 < byteLen bound.stretch := byteLen_pos (by simp [Bound.stretch])
        simp only [Edit.span, Bound.upper, Span.behind_start, Span.behind_stop]
        omega
    · simp at he
  · unfold removals
    split
    · next c hcompared =>
      cases hbound : c.bound? with
      | none => simp
      | some bound => simp [Edit.span, Bound.upper]
    · exact .nil

theorem Joined.row_editsBehind (lacks : String → Bool) (owes : Bool) (front : List Char)
    (others : List Joined) :
    Row (editsBehind lacks owes front others) (byteLen front)
      (byteLen (front ++ writtenAll others)) := by
  induction others generalizing owes front with
  | nil => exact ⟨by simp [editsBehind], by simp [editsBehind], .nil⟩
  | cons joined others ih =>
    have hwritten : front ++ writtenAll (joined :: others) =
        (front ++ ' ' :: joined.written) ++ writtenAll others := by simp [writtenAll]
    have hplace : front ++ ' ' :: joined.written = front ++ [' '] ++ joined.written := by simp
    have hle : byteLen (front ++ ' ' :: joined.written) ≤
        byteLen (front ++ ' ' :: joined.written ++ writtenAll others) := by
      rw [byteLen_append _ (writtenAll others)]
      omega
    have hle' : byteLen front ≤ byteLen (front ++ ' ' :: joined.written) := by
      rw [byteLen_append]
      omega
    have hspace : byteLen front ≤ byteLen (front ++ [' ']) := by
      rw [byteLen_append]
      omega
    rw [hwritten, editsBehind]
    split
    · refine Row.append ?_ (ih false _) hle' hle
      split
      · have hpos := byteLen_pos joined.spells.ne_nil
        refine ⟨?_, ?_, List.pairwise_singleton _ _⟩
        · rintro e he
          obtain rfl := List.mem_singleton.1 he
          simp only [Edit.span, Span.behind_start, Span.behind_stop]
          omega
        · rintro e he
          obtain rfl := List.mem_singleton.1 he
          rw [hplace, Joined.written, ← List.append_assoc]
          simp only [Edit.span, Span.behind_start, Span.behind_stop, byteLen_append]
          omega
      · exact ⟨by simp, by simp, .nil⟩
    · refine Row.append ?_ (ih owes _) hle' hle
      have hremovals := joined.row_removals (front ++ [' '])
      rw [hplace]
      exact ⟨hremovals.nonempty, fun e he =>
        ⟨Nat.le_trans hspace (hremovals.within e he).1, (hremovals.within e he).2⟩,
        hremovals.pairwise⟩

/-- What is left of a removed comparison: the blanks in front of its bound. -/
theorem Joined.copy_removals {joined : Joined} {c : Compared} {edits : List Edit}
    {front : List Char} (hcompared : joined.condition = .compared c) (rest : List Char)
    (hbehind : ∀ e ∈ edits, byteLen (front ++ joined.written) ≤ e.span.start) :
    Edit.copy (joined.removals front ++ edits) (byteLen front) (joined.written ++ rest) =
      joined.condition.leftover ++ Edit.copy edits (byteLen (front ++ joined.written)) rest := by
  have hwritten := joined.written_of_compared hcompared
  have hremovals : joined.removals front ++ edits =
      .remove (.behind front (c.reading joined.connector joined.keyword).written) ::
        ((c.bound?.toList.map fun bound => Edit.remove
          (bound.upper (front ++ (c.reading joined.connector joined.keyword).written)).span) ++
            edits) := by
    rw [removals, hcompared]
    rfl
  rw [hwritten] at hbehind ⊢
  rw [hremovals, hcompared, List.append_assoc, Edit.copy_cons _ rfl]
  cases hbound : c.bound? with
  | none => simp [Condition.leftover, Compared.leftover, Compared.boundWritten, hbound,
      Edit.replacement]
  | some bound =>
    have htext : c.boundWritten ++ rest = bound.blanks ++ (bound.stretch ++ rest) := by
      simp [Compared.boundWritten, hbound, Bound.written]
    have hplace : front ++ ((c.reading joined.connector joined.keyword).written ++ c.boundWritten) =
        front ++ (c.reading joined.connector joined.keyword).written ++ bound.blanks ++
          bound.stretch := by
      simp [Compared.boundWritten, hbound, Bound.written]
    rw [hplace] at hbehind ⊢
    rw [htext, Edit.copy_append, Option.toList_some, List.map_singleton, List.singleton_append,
      Edit.copy_cons _ rfl]
    · simp [Condition.leftover, Compared.leftover, hbound, Edit.replacement]
    · intro e he
      obtain rfl | he := List.mem_cons.1 he
      · exact Nat.le_refl _
      · have hle := hbehind e he
        rw [byteLen_append _ bound.stretch] at hle
        omega

/-- What is left of conditions. -/
theorem Joined.copy_editsBehind (lacks : String → Bool) (owes : Bool) (front : List Char)
    (others : List Joined) (after : List Char) :
    Edit.copy (editsBehind lacks owes front others) (byteLen front) (writtenAll others ++ after) =
      repaired lacks owes others ++ after := by
  induction others generalizing owes front with
  | nil => rfl
  | cons joined others ih =>
    have hplace : front ++ ' ' :: joined.written = front ++ [' '] ++ joined.written := by simp
    have htext : writtenAll (joined :: others) ++ after =
        [' '] ++ (joined.written ++ (writtenAll others ++ after)) := by simp [writtenAll]
    have hbehind : ∀ owes, ∀ e ∈ editsBehind lacks owes (front ++ ' ' :: joined.written) others,
        byteLen (front ++ ' ' :: joined.written) ≤ e.span.start := fun owes e he =>
      ((row_editsBehind lacks owes _ others).within e he).1
    have hspace : byteLen (front ++ [' ']) ≤ byteLen (front ++ ' ' :: joined.written) := by
      rw [hplace, byteLen_append _ joined.written]
      omega
    rw [htext, editsBehind, repaired]
    by_cases hsurvives : joined.condition.survives lacks
    · simp only [hsurvives, if_true]
      cases owes with
      | false =>
        have hkept : [' '] ++ (joined.written ++ (writtenAll others ++ after)) =
            (' ' :: joined.written) ++ (writtenAll others ++ after) := by simp
        rw [if_neg Bool.false_ne_true, List.nil_append, hkept, Edit.copy_append _ _ (hbehind false),
          ih]
        simp [Joined.written]
      | true =>
        have hkept : joined.written ++ (writtenAll others ++ after) = joined.keyword ++
            ((' ' :: joined.condition.written) ++ (writtenAll others ++ after)) := by
          simp [Joined.written]
        have hwhole : front ++ [' '] ++ joined.keyword ++ (' ' :: joined.condition.written) =
            front ++ ' ' :: joined.written := by simp [Joined.written]
        rw [if_pos rfl, List.singleton_append, Edit.copy_append, hkept, Edit.copy_cons _ rfl,
          Edit.copy_append, hwhole, ih]
        · simp [Edit.replacement]
        · rw [hwhole]
          exact hbehind false
        · intro e he
          obtain rfl | he := List.mem_cons.1 he
          · exact Nat.le_refl _
          · exact Nat.le_trans hspace (hbehind false e he)
    · obtain ⟨c, hcompared⟩ := Condition.exists_compared_of_not_survives hsurvives
      rw [if_neg hsurvives, if_neg hsurvives, Edit.copy_append, copy_removals hcompared, ← hplace, ih]
      · simp
      · rw [← hplace]
        exact hbehind owes
      · intro e he
        obtain he | he := List.mem_append.1 he
        · exact (within_of_mem_removals he).1
        · exact Nat.le_trans hspace (hbehind owes e he)

end Copy

section Prune

variable (filter : Filter) (lacks : String → Bool)

/-- Whether pruning owes a `WHERE` and pays it. -/
def pays : Bool :=
  !filter.first.condition.survives lacks && filter.others.any (Joined.isKeptClause lacks)

theorem row_edits : Row (filter.edits lacks) 0 (byteLen (filter.before ++ filter.first.written ++
    Joined.writtenAll filter.others)) := by
  have hfirst : byteLen (filter.before ++ filter.first.written) ≤ byteLen (filter.before ++
      filter.first.written ++ Joined.writtenAll filter.others) := by
    rw [byteLen_append _ (Joined.writtenAll filter.others)]
    omega
  have hnone : Row [] 0 (byteLen (filter.before ++ filter.first.written)) :=
    ⟨by simp, by simp, .nil⟩
  unfold edits
  split
  · exact hnone.append (Joined.row_editsBehind lacks false _ _) (Nat.zero_le _) hfirst
  · have hremovals := filter.first.row_removals filter.before
    refine Row.append ⟨hremovals.nonempty, fun e he => ⟨Nat.zero_le _, (hremovals.within e he).2⟩,
      hremovals.pairwise⟩ (Joined.row_editsBehind lacks _ _ _) (Nat.zero_le _) hfirst

theorem copy_edits : Edit.copy (filter.edits lacks) 0 filter.written =
    filter.around lacks (Joined.repaired lacks (filter.pays lacks) filter.others) := by
  have hbefore : ∀ edits : List Edit, (∀ e ∈ edits, byteLen filter.before ≤ e.span.start) →
      Edit.copy edits 0 filter.written = filter.before ++ Edit.copy edits (byteLen filter.before)
        (filter.first.written ++ (Joined.writtenAll filter.others ++ filter.after)) := by
    intro edits hbehind
    have htext : filter.written = filter.before ++
        (filter.first.written ++ (Joined.writtenAll filter.others ++ filter.after)) := by
      simp [written]
    have hstart : ∀ e ∈ edits, byteLen ([] ++ filter.before) ≤ e.span.start := hbehind
    rw [htext]
    exact Edit.copy_append filter.before _ hstart
  have hothers : ∀ owes, ∀ e ∈ Joined.editsBehind lacks owes
      (filter.before ++ filter.first.written) filter.others,
        byteLen (filter.before ++ filter.first.written) ≤ e.span.start := fun owes e he =>
    ((Joined.row_editsBehind lacks owes _ _).within e he).1
  have hfirst : byteLen filter.before ≤ byteLen (filter.before ++ filter.first.written) := by
    rw [byteLen_append]
    omega
  by_cases hsurvives : filter.first.condition.survives lacks
  · rw [edits, if_pos hsurvives, hbefore _ fun e he => Nat.le_trans hfirst (hothers false e he),
      Edit.copy_append _ _ (hothers false), Joined.copy_editsBehind]
    simp [around, pays, hsurvives]
  · obtain ⟨c, hcompared⟩ := Condition.exists_compared_of_not_survives hsurvives
    rw [edits, if_neg hsurvives, hbefore, Joined.copy_removals hcompared _ (hothers _),
      Joined.copy_editsBehind]
    · simp [around, pays, hsurvives]
    · intro e he
      obtain he | he := List.mem_append.1 he
      · exact (within_of_mem_removals he).1
      · exact Nat.le_trans hfirst (hothers _ e he)

/-- What pruning makes of a filter, and what it reports. -/
theorem prune_written :
    (prune false lacks (String.ofList filter.written)).sql =
        String.ofList (trim (filter.around lacks
          (Joined.repaired lacks (filter.pays lacks) filter.others))) ∧
      (prune false lacks (String.ofList filter.written)).names = filter.removedNames lacks := by
  obtain ⟨hedits, hnames⟩ := filter.yields_steps lacks
  have hrow := filter.row_edits lacks
  have happly : Edit.applyAll (editsOf (steps lacks filter.written)) filter.written =
      filter.around lacks (Joined.repaired lacks (filter.pays lacks) filter.others) := by
    rw [Edit.applyAll, Edit.sort_eq_of_perm hedits hrow.nonempty hrow.pairwise, copy_edits]
  simp only [prune, Pruned.removing, Bool.false_eq_true, if_false, String.toList_ofList]
  exact ⟨by rw [← happly]; rfl, hnames⟩

end Prune

section Repair

variable {lacks : String → Bool}

/-- Where no condition stays it does not matter whether a `WHERE` is owed. -/
theorem Joined.repaired_eq_of_none_survives {others : List Joined}
    (hnone : ∀ joined ∈ others, joined.condition.survives lacks = false) (owes owes' : Bool) :
    repaired lacks owes others = repaired lacks owes' others := by
  induction others with
  | nil => rfl
  | cons joined others ih =>
    have hgone := hnone joined List.mem_cons_self
    simp [repaired, hgone, ih fun j hj => hnone j (List.mem_cons_of_mem joined hj)]

/-- Whether a `WHERE` is owed makes a difference to one connector, if a condition stays. -/
theorem Joined.exists_repaired_of_survives {others : List Joined}
    (hsome : ∃ joined ∈ others, joined.condition.survives lacks = true) :
    ∃ joined ∈ others, ∃ front rest, ∀ owes, repaired lacks owes others =
      front ++ (if owes then where_.letters else joined.keyword) ++ rest := by
  induction others with
  | nil => simp at hsome
  | cons joined others ih =>
    cases hsurvives : joined.condition.survives lacks with
    | true =>
      refine ⟨joined, List.mem_cons_self, [' '],
        ' ' :: joined.condition.written ++ repaired lacks false others, fun owes => ?_⟩
      simp [repaired, hsurvives]
    | false =>
      obtain ⟨stays, hmem, hstays⟩ := hsome
      obtain rfl | hmem := List.mem_cons.1 hmem
      · simp [hsurvives] at hstays
      · obtain ⟨first, hfirst, front, rest, hrepaired⟩ := ih ⟨stays, hmem, hstays⟩
        refine ⟨first, List.mem_cons_of_mem joined hfirst,
          ' ' :: joined.condition.leftover ++ front, rest, fun owes => ?_⟩
        simp [repaired, hsurvives, hrepaired owes]

/-- Trimming does not hide a connector. -/
theorem trim_ne_of_connector {word word' : List Char} {connector connector' : Connector}
    (hword : Spells word connector) (hword' : Spells word' connector') (hne : connector ≠ connector')
    (front rest : List Char) : trim (front ++ word ++ rest) ≠ trim (front ++ word' ++ rest) := by
  rw [trim_around front rest hword.ne_nil hword.not_isBlank,
    trim_around front rest hword'.ne_nil hword'.not_isBlank]
  intro heq
  rw [List.append_left_inj, List.append_right_inj] at heq
  subst heq
  exact hne (hword.unique hword')

end Repair

/-- Where all conditions are clauses, pruning leaves exactly those that have a value, and `WHERE`
stands in front of the first one. The bindings may be any, also for names that occur twice or not at
all. -/
theorem prune_of_compared (filter : Filter)
    (hcompared : ∀ joined ∈ filter.first :: filter.others, joined.condition.isCompared = true)
    (bindings : Bindings) :
    (prune false bindings.lacks (String.ofList filter.written)).sql =
        String.ofList (trim (filter.repaired bindings.lacks)) ∧
      (prune false bindings.lacks (String.ofList filter.written)).names =
        filter.removedNames bindings.lacks := by
  obtain ⟨hsql, hnames⟩ := filter.prune_written bindings.lacks
  refine ⟨?_, hnames⟩
  have hrepaired : Joined.repaired bindings.lacks (filter.pays bindings.lacks) filter.others =
      Joined.repaired bindings.lacks (!filter.first.condition.survives bindings.lacks)
        filter.others := by
    cases hkept : filter.others.any (Joined.isKeptClause bindings.lacks) with
    | true => simp [pays, hkept]
    | false =>
      have hnone : ∀ joined ∈ filter.others,
          joined.condition.survives bindings.lacks = false := by
        intro joined hmem
        have hgone := List.any_eq_false.1 hkept joined hmem
        simpa [Joined.isKeptClause, hcompared joined (List.mem_cons_of_mem _ hmem)] using hgone
      exact Joined.repaired_eq_of_none_survives hnone _ _
  rw [hsql, hrepaired, repaired]

/-- The comparison of a column with a placeholder, each one letter long. -/
def letterCompared (column name : Char) (hcolumn : Clause.isColumnChar column)
    (hname : isFoldedLetter name) : Compared where
  column := [column]
  operator := .equal
  comparison := ⟨[' '], ['='], [' '], [name]⟩
  bound? := none
  isPath := .inl ⟨hcolumn, rfl⟩
  blanksBefore c hc := by
    obtain rfl := List.mem_singleton.1 hc
    rfl
  sameOperator := rfl
  blanksAfter c hc := by
    obtain rfl := List.mem_singleton.1 hc
    rfl
  isName := ⟨hname, nofun⟩
  between := nofun

/-- A filter of two comparisons with nothing around it. -/
def letterPair : Filter where
  before := []
  first := ⟨.where_, where_.letters, .compared (letterCompared 'a' 'x' rfl rfl), rfl⟩
  others := [⟨.and, Connector.and.letters, .compared (letterCompared 'b' 'y' rfl rfl), rfl⟩]
  after := []
  endsBlank := by simp
  holdsNone front word rest connector heq hspells := by
    have hnil : word = [] := by simp_all
    exact absurd hnil hspells.ne_nil
  isWhere := rfl
  isJoining := by simp
  noColon := nofun
  endsName := nofun

theorem prune_of_compared_letterPair :
    (∀ joined ∈ letterPair.first :: letterPair.others, joined.condition.isCompared = true) ∧
      String.ofList letterPair.written = "WHERE a = :x AND b = :y" ∧
      (prune false (Bindings.empty.assign (.assigned "y" (.bool true) false)).lacks
        (String.ofList letterPair.written)).sql = "WHERE b = :y" ∧
      (prune false (Bindings.empty.assign (.assigned "y" (.bool true) false)).lacks
        (String.ofList letterPair.written)).names = ["x"] := by
  have hcompared : ∀ joined ∈ letterPair.first :: letterPair.others,
      joined.condition.isCompared = true := by decide
  obtain ⟨hsql, hnames⟩ := prune_of_compared letterPair hcompared
    (Bindings.empty.assign (.assigned "y" (.bool true) false))
  refine ⟨hcompared, by decide +kernel, hsql.trans ?_, hnames.trans ?_⟩
  · decide +kernel
  · decide +kernel

/-- The first condition that stays is introduced by `WHERE` exactly where the `WHERE` was not
removed, or a clause is kept behind it, or nothing else stays. -/
theorem sql_prune_eq_repaired_iff (filter : Filter) (bindings : Bindings) :
    (prune false bindings.lacks (String.ofList filter.written)).sql =
        String.ofList (trim (filter.repaired bindings.lacks)) ↔
      filter.first.condition.survives bindings.lacks = true ∨
        (∃ joined ∈ filter.others, joined.condition.isCompared = true ∧
          joined.condition.survives bindings.lacks = true) ∨
        ∀ joined ∈ filter.others, joined.condition.survives bindings.lacks = false := by
  rw [(filter.prune_written bindings.lacks).1, String.ofList_inj]
  constructor
  · intro hsame
    by_contra hnot
    simp only [not_or, not_exists, not_and, not_forall, Bool.not_eq_true, Bool.not_eq_false]
      at hnot
    obtain ⟨hfirst, hnoClause, joined, hmem, hstays⟩ := hnot
    have hkept : filter.others.any (Joined.isKeptClause bindings.lacks) = false := by
      rw [List.any_eq_false]
      intro j hj hclause
      rw [Joined.isKeptClause, Bool.and_eq_true] at hclause
      rw [hnoClause j hj hclause.1] at hclause
      cases hclause.2
    obtain ⟨stays, hothers, front, rest, hrepaired⟩ :=
      Joined.exists_repaired_of_survives ⟨joined, hmem, hstays⟩
    refine trim_ne_of_connector stays.spells (spells_letters .where_)
      (filter.isJoining stays hothers)
      (filter.before ++ filter.first.condition.leftover ++ front) (rest ++ filter.after) ?_
    simpa [around, repaired, pays, hfirst, hkept, hrepaired] using hsame
  · rintro (hfirst | ⟨joined, hmem, hclause⟩ | hnone)
    · simp [repaired, pays, hfirst]
    · have hkept : filter.others.any (Joined.isKeptClause bindings.lacks) = true :=
        List.any_eq_true.2 ⟨joined, hmem, by simp [Joined.isKeptClause, hclause]⟩
      simp [repaired, pays, hkept]
    · rw [repaired, Joined.repaired_eq_of_none_survives hnone]

/-- A constant is left behind an `AND` where the only clause in front of it is removed. -/
theorem prune_leaves_and_constant :
    (prune false (Bindings.ofTemplate "SELECT * FROM t WHERE a = :x AND b = 1".toList).lacks
      "SELECT * FROM t WHERE a = :x AND b = 1").sql = "SELECT * FROM t  AND b = 1" := by
  decide +kernel

end SqlTemplate.Filter
