import SqlTemplate.Proofs.Filter.Clauses
import SqlTemplate.Proofs.Pruning.Run

namespace SqlTemplate.Filter

open Connector Pruning

/-- A condition at its place in a text. -/
structure JoinedAt (text front : List Char) (joined : Joined) (rest : List Char) : Prop where
  text_eq : text = front ++ joined.written ++ rest
  free : isWordBeside (lastFrom none front) = false
  ends : EndsName isFoldedLetter rest
  noBound : upperBoundAt? text (byteLen (front ++ joined.written)) = none

/-- A bound as an upper bound of the text, behind `front` and its blanks. -/
def Bound.upper (bound : Bound) (front : List Char) : UpperBound where
  span := .behind (front ++ bound.blanks) bound.stretch
  connector := .and
  placeholder := String.ofList bound.name

/-- The removals of a comparison behind `front`, and of its bound. -/
def Joined.removals (front : List Char) (joined : Joined) : List Edit :=
  match joined.condition with
  | .compared c =>
    let written := (c.reading joined.connector joined.keyword).written
    .remove (.behind front written) ::
      c.bound?.toList.map fun bound => .remove (bound.upper (front ++ written)).span
  | .constant _ => []

/-- The edits that pruning should make to conditions, from left to right. -/
def Joined.editsBehind (lacks : String → Bool) : Bool → List Char → List Joined → List Edit
  | _, _, [] => []
  | owes, front, joined :: rest =>
    if joined.condition.survives lacks then
      (if owes then [.promote (.behind (front ++ [' ']) joined.keyword)] else []) ++
        editsBehind lacks false (front ++ ' ' :: joined.written) rest
    else
      joined.removals (front ++ [' ']) ++
        editsBehind lacks owes (front ++ ' ' :: joined.written) rest

namespace JoinedAt

variable {lacks : String → Bool} {text front rest : List Char} {joined : Joined} {c : Compared}
  {progress : Progress}

/-- The bound of a comparison is what stands behind it. -/
theorem upperBoundAt?_eq (hat : JoinedAt text front joined rest)
    (hcompared : joined.condition = .compared c) :
    upperBoundAt? text
        (byteLen (front ++ (c.reading joined.connector joined.keyword).written)) =
      c.bound?.map fun bound =>
        bound.upper (front ++ (c.reading joined.connector joined.keyword).written) := by
  have hwritten := joined.written_of_compared hcompared
  have htext := hat.text_eq
  rw [hwritten] at htext
  cases hbound : c.bound? with
  | none =>
    have hnone := hat.noBound
    rw [hwritten] at hnone
    simpa [Compared.boundWritten, hbound] using hnone
  | some bound =>
    refine UpperBound.upperBoundAt?_eq_some_iff.2 ⟨_, bound.blanks, bound.keyword, bound.name, rest,
      rfl, ?_, rfl, rfl, bound.isBlank, bound.spells, bound.isName, hat.ends⟩
    rw [htext]
    simp [Compared.boundWritten, hbound, Bound.written, Bound.stretch]

/-- A comparison without a value is removed with its bound. -/
theorem decide_removed (hat : JoinedAt text front joined rest)
    (hcompared : joined.condition = .compared c) (hlacks : lacks c.placeholder = true)
    (hbehind : progress.removedTo ≤ byteLen front) :
    progress.decide lacks text (c.clause joined.connector joined.keyword front) =
      .remove (c.bound?.map fun bound =>
        bound.upper (front ++ (c.reading joined.connector joined.keyword).written)) := by
  have hstart : ¬ (c.clause joined.connector joined.keyword front).span.start <
      progress.removedTo := Nat.not_lt_of_le hbehind
  have hlacks' : lacks (c.clause joined.connector joined.keyword front).placeholder = true := hlacks
  have hstop : (c.clause joined.connector joined.keyword front).span.stop =
      byteLen (front ++ (c.reading joined.connector joined.keyword).written) := by
    rw [byteLen_append]
    rfl
  rw [Progress.decide, if_neg hstart, if_pos hlacks', hstop, hat.upperBoundAt?_eq hcompared]
  congr 1
  by_cases hbetween : c.operator = .between
  · exact if_pos hbetween
  · have hnone : c.bound? = none := by
      by_contra hsome
      exact hbetween (c.between (Option.isSome_iff_ne_none.2 hsome))
    rw [hnone]
    exact if_neg hbetween

theorem decide_kept (hkept : lacks c.placeholder = false)
    (hbehind : progress.removedTo ≤ byteLen front) :
    progress.decide lacks text (c.clause joined.connector joined.keyword front) =
      .keep (if progress.owesWhere then firstJoiningOutside? progress.taken text else none) := by
  have hstart : ¬ (c.clause joined.connector joined.keyword front).span.start <
      progress.removedTo := Nat.not_lt_of_le hbehind
  have hkept' : ¬ lacks (c.clause joined.connector joined.keyword front).placeholder = true := by
    change ¬ lacks c.placeholder = true
    simp [hkept]
  rw [Progress.decide, if_neg hstart, if_neg hkept']

end JoinedAt

/-- The step that removes a comparison. -/
def Compared.removal (c : Compared) (connector : Connector) (keyword front : List Char) : Step where
  clause := c.clause connector keyword front
  decision := .remove (c.bound?.map fun bound =>
    bound.upper (front ++ (c.reading connector keyword).written))

namespace Compared

variable {c : Compared} {joined : Joined} {front : List Char} {progress : Progress}

theorem edits_removal (hcompared : joined.condition = .compared c) :
    (c.removal joined.connector joined.keyword front).edits = joined.removals front := by
  rw [Joined.removals, hcompared]
  cases hbound : c.bound? <;> simp [removal, Step.edits, hbound, clause]

theorem prunedNames_removal (connector : Connector) (keyword front : List Char) :
    (c.removal connector keyword front).prunedNames = c.names := by
  cases hbound : c.bound? <;>
    simp [removal, Step.prunedNames, hbound, clause, names, Bound.upper]

theorem owesWhere_after_removal (connector : Connector) (keyword front : List Char) :
    (progress.after (c.removal connector keyword front)).owesWhere =
      (progress.owesWhere || connector == .where_) := rfl

theorem taken_after_removal (hcompared : joined.condition = .compared c) :
    (progress.after (c.removal joined.connector joined.keyword front)).taken =
      (joined.removals front).map Edit.span ++ progress.taken := by
  rw [← edits_removal hcompared]
  rfl

theorem removedTo_after_removal (hcompared : joined.condition = .compared c) :
    (progress.after (c.removal joined.connector joined.keyword front)).removedTo =
      byteLen (front ++ joined.written) := by
  have hwritten := joined.written_of_compared hcompared
  rw [hwritten]
  cases hbound : c.bound? with
  | none => simp [removal, Progress.after, hbound, clause, boundWritten]
  | some bound =>
    simp [removal, Progress.after, hbound, clause, boundWritten, Bound.upper, Bound.written,
      Nat.add_assoc]

end Compared

/-- Every free-standing `AND` and `OR` in front of a place lies in a stretch that is taken. -/
def Covered (text : List Char) (taken : List Span) (front : List Char) : Prop :=
  ∀ joining ∈ joiningSpans text, joining.start < byteLen front →
    ∃ other ∈ taken, other.overlaps joining

namespace Covered

variable {text front rest : List Char} {taken : List Span}

theorem mono {taken' : List Span} (hcovered : Covered text taken front)
    (hsubset : ∀ span ∈ taken, span ∈ taken') : Covered text taken' front := by
  intro joining hmem hbefore
  obtain ⟨other, hother, hoverlaps⟩ := hcovered joining hmem hbefore
  exact ⟨other, hsubset other hother, hoverlaps⟩

/-- A stretch that is taken adds nothing to what is left. -/
theorem append_taken (hcovered : Covered text taken front) (stretch : List Char)
    (htaken : .behind front stretch ∈ taken) : Covered text taken (front ++ stretch) := by
  intro joining hmem hbefore
  by_cases hfront : joining.start < byteLen front
  · exact hcovered joining hmem hfront
  · refine ⟨_, htaken, Span.overlaps_iff.2 ?_⟩
    have hspan := start_lt_stop_of_mem_joiningSpans hmem
    simp only [byteLen_append, Span.behind_start, Span.behind_stop] at hbefore ⊢
    omega

/-- No `AND` or `OR` begins with a blank. -/
theorem append_blanks {stretch : List Char} (hcovered : Covered text taken front)
    (hblanks : ∀ c ∈ stretch, isBlank c) (rest : List Char) (htext : text = front ++ stretch ++ rest) :
    Covered text taken (front ++ stretch) := by
  intro joining hmem hbefore
  by_cases hfront : joining.start < byteLen front
  · exact hcovered joining hmem hfront
  · exfalso
    obtain ⟨front', word, rest', hat⟩ := mem_joiningSpans_iff.1 hmem
    have hsame : front ++ (stretch ++ rest) = front' ++ (word ++ rest') := by
      rw [← List.append_assoc, ← htext, hat.text_eq, List.append_assoc]
    have hstart : joining.start = byteLen front' := by
      rw [hat.span_eq]
      rfl
    obtain ⟨gap, rfl, hgap⟩ := exists_append_of_byteLen_le hsame (by omega)
    rw [hstart] at hbefore
    obtain ⟨d, ds, rfl⟩ := List.exists_cons_of_ne_nil hat.word_ne_nil
    have hmemStretch : d ∈ stretch := by
      rw [byteLen_append, byteLen_append] at hbefore
      obtain ⟨behind, rfl, hbehind⟩ := exists_append_of_byteLen_le hgap.symm (by omega)
      cases behind with
      | nil => simp at hbefore
      | cons e es =>
        obtain ⟨rfl, _⟩ := List.cons.inj hbehind
        simp
    have hword := hat.isWordChar d List.mem_cons_self
    rw [isWordChar_of_isBlank (hblanks d hmemStretch)] at hword
    cases hword

/-- A removed condition is covered by its removals. -/
theorem append_removed {joined : Joined} {c : Compared} (hcovered : Covered text taken front)
    (hcompared : joined.condition = .compared c) (hat : JoinedAt text front joined rest) :
    Covered text ((joined.removals front).map Edit.span ++ taken) (front ++ joined.written) := by
  have hwritten := joined.written_of_compared hcompared
  have htext := hat.text_eq
  rw [hwritten] at htext ⊢
  have hmono : Covered text ((joined.removals front).map Edit.span ++ taken) front :=
    hcovered.mono fun span hspan => List.mem_append_right _ hspan
  have hclause := hmono.append_taken (c.reading joined.connector joined.keyword).written
    (by simp [Joined.removals, hcompared, Edit.span])
  cases hbound : c.bound? with
  | none => simpa [Compared.boundWritten, hbound] using hclause
  | some bound =>
    have hblanks := hclause.append_blanks bound.isBlank (bound.stretch ++ rest)
      (by rw [htext]; simp [Compared.boundWritten, hbound, Bound.written])
    have hstretch := hblanks.append_taken bound.stretch
      (by simp [Joined.removals, hcompared, hbound, Edit.span, Bound.upper])
    simpa [Compared.boundWritten, hbound, Bound.written] using hstretch

end Covered

/-- A condition begins with its column, so with no colon. -/
theorem Condition.head?_written_ne_colon (condition : Condition) (rest : List Char) :
    (condition.written ++ rest).head? ≠ some ':' := by
  have hcolumn : ∀ {column : List Char}, Clause.IsPathFrom false column → ∀ text : List Char,
      (column ++ text).head? ≠ some ':' := by
    intro column hpath text hhead
    obtain ⟨c, cs, rfl⟩ := List.exists_cons_of_ne_nil hpath.ne_nil
    obtain rfl : c = ':' := by simpa using hhead
    exact Clause.not_isPathChar_colon (hpath.isPathChar ':' List.mem_cons_self)
  cases condition with
  | compared c =>
    have htext : (compared c).written ++ rest =
        c.column ++ (c.comparison.written ++ c.boundWritten ++ rest) := by simp [written]
    rw [htext]
    exact hcolumn c.isPath _
  | constant c =>
    have htext : (constant c).written ++ rest =
        c.column ++ (' ' :: c.token ++ ' ' :: (c.sign ++ c.digits) ++ rest) := by simp [written]
    rw [htext]
    exact hcolumn c.isPath _

/-- Neither further conditions nor what follows the filter is an upper bound. -/
theorem upperBoundAt?_eq_none (front : List Char) (others : List Joined) {after : List Char}
    (hcolon : ':' ∉ after) :
    upperBoundAt? (front ++ (Joined.writtenAll others ++ after)) (byteLen front) = none := by
  rw [Option.eq_none_iff_forall_ne_some]
  intro upper hupper
  obtain ⟨front', blanks, keyword, name, rest, hlen, hat⟩ :=
    UpperBound.upperBoundAt?_eq_some_iff.1 hupper
  have htext : front' ++ (blanks ++ (keyword ++ ' ' :: ':' :: (name ++ rest))) =
      front ++ (Joined.writtenAll others ++ after) := by
    rw [hat.text_eq]
    simp
  obtain ⟨rfl, hbehind⟩ := append_inj_of_byteLen_eq htext hlen
  cases others with
  | nil =>
    rw [Joined.writtenAll, List.flatMap_nil, List.nil_append] at hbehind
    exact hcolon (by simp [← hbehind])
  | cons joined others =>
    have hjoined : blanks ++ (keyword ++ ' ' :: ':' :: (name ++ rest)) = ' ' :: (joined.keyword ++
        ' ' :: (joined.condition.written ++ (Joined.writtenAll others ++ after))) := by
      rw [hbehind]
      simp [Joined.writtenAll, Joined.written]
    have hspace : ' ' ∉ keyword := hat.keyword.not_mem_of_not_letter rfl
    have hword : keyword ++ ' ' :: ':' :: (name ++ rest) =
        joined.keyword ++ ' ' :: (joined.condition.written ++ (Joined.writtenAll others ++ after)) := by
      cases blanks with
      | nil =>
        obtain ⟨c, cs, rfl⟩ := List.exists_cons_of_ne_nil hat.keyword.ne_nil
        obtain ⟨rfl, _⟩ := List.cons.inj hjoined
        exact absurd List.mem_cons_self hspace
      | cons b bs =>
        obtain ⟨rfl, htail⟩ := List.cons.inj hjoined
        cases bs with
        | nil => exact htail
        | cons d ds =>
          obtain ⟨e, es, hkeyword⟩ := List.exists_cons_of_ne_nil joined.spells.ne_nil
          rw [hkeyword] at htail
          obtain ⟨rfl, _⟩ := List.cons.inj htail
          have hpart := joined.spells.isWordChar d (by simp [hkeyword])
          rw [isWordChar_of_isBlank (hat.blanks d (by simp))] at hpart
          cases hpart
    obtain ⟨gap, hgap, hrest⟩ := exists_append_of_space hspace hword
    cases gap with
    | nil =>
      obtain ⟨_, hhead⟩ := List.cons.inj hrest
      exact joined.condition.head?_written_ne_colon _ (by rw [← hhead]; rfl)
    | cons c cs =>
      obtain ⟨rfl, _⟩ := List.cons.inj hrest
      exact joined.spells.not_mem_of_not_letter (c := ' ') rfl (by simp [hgap])

/-- Conditions that stand behind `front` up to the end of their filter. -/
structure Ahead (text front : List Char) (others : List Joined) (after : List Char) : Prop where
  text_eq : text = front ++ (Joined.writtenAll others ++ after)
  isJoining : ∀ joined ∈ others, joined.connector ≠ .where_
  noColon : ':' ∉ after
  endsName : EndsName isFoldedLetter after

namespace Ahead

variable {text front after : List Char} {joined : Joined} {others : List Joined}

theorem tail (hahead : Ahead text front (joined :: others) after) :
    Ahead text (front ++ ' ' :: joined.written) others after := by
  refine ⟨?_, fun j hj => hahead.isJoining j (List.mem_cons_of_mem joined hj), hahead.noColon,
    hahead.endsName⟩
  rw [hahead.text_eq]
  simp [Joined.writtenAll]

theorem head (hahead : Ahead text front (joined :: others) after) :
    JoinedAt text (front ++ [' ']) joined (Joined.writtenAll others ++ after) := by
  have htext : front ++ ' ' :: joined.written = front ++ [' '] ++ joined.written := by simp
  have hnone := upperBoundAt?_eq_none (front ++ ' ' :: joined.written) others hahead.noColon
  rw [← hahead.tail.text_eq, htext] at hnone
  refine ⟨?_, ?_, (writtenAll_stops others hahead.noColon hahead.endsName).1, hnone⟩
  · rw [hahead.tail.text_eq, htext]
  · rw [lastFrom_concat]
    exact isWordChar_of_isBlank (c := ' ') rfl

theorem joiningAt (hahead : Ahead text front (joined :: others) after) :
    JoiningAt text (.behind (front ++ [' ']) joined.keyword) (front ++ [' ']) joined.keyword
      (' ' :: joined.condition.written ++ (Joined.writtenAll others ++ after)) := by
  refine ⟨?_, rfl, ⟨_, hahead.isJoining joined List.mem_cons_self, joined.spells⟩,
    hahead.head.free, isWordChar_of_isBlank (c := ' ') rfl⟩
  rw [hahead.head.text_eq]
  simp [Joined.written]

theorem covered_space {taken : List Span} (hahead : Ahead text front (joined :: others) after)
    (hcovered : Covered text taken front) : Covered text taken (front ++ [' ']) := by
  refine hcovered.append_blanks (fun c hc => ?_)
    (joined.written ++ (Joined.writtenAll others ++ after)) ?_
  · obtain rfl := List.mem_singleton.1 hc
    rfl
  · rw [hahead.head.text_eq, List.append_assoc]

end Ahead

section Steps

variable {lacks : String → Bool} {text front rest : List Char} {joined : Joined} {c : Compared}
  {progress : Progress}

theorem stepsFrom_removed (hat : JoinedAt text front joined rest)
    (hcompared : joined.condition = .compared c) (hlacks : lacks c.placeholder = true)
    (hremoved : progress.removedTo ≤ byteLen front) (later : List Clause) :
    stepsFrom lacks text progress ((joined.clause? front).toList ++ later) =
      c.removal joined.connector joined.keyword front ::
        stepsFrom lacks text (progress.after (c.removal joined.connector joined.keyword front))
          later := by
  have hclause : joined.clause? front = some (c.clause joined.connector joined.keyword front) := by
    rw [Joined.clause?, hcompared]
  rw [hclause]
  simp only [Option.toList_some, List.cons_append, List.nil_append, stepsFrom,
    hat.decide_removed hcompared hlacks hremoved]
  rfl

/-- The step that keeps a comparison. -/
def Compared.keeping (c : Compared) (joined : Joined) (front : List Char)
    (promoted? : Option Span) : Step where
  clause := c.clause joined.connector joined.keyword front
  decision := .keep promoted?

theorem stepsFrom_kept (hcompared : joined.condition = .compared c)
    (hkept : lacks c.placeholder = false) (hremoved : progress.removedTo ≤ byteLen front)
    {promoted? : Option Span}
    (hpromoted : promoted? =
      if progress.owesWhere then firstJoiningOutside? progress.taken text else none)
    (later : List Clause) :
    stepsFrom lacks text progress ((joined.clause? front).toList ++ later) =
      c.keeping joined front promoted? ::
        stepsFrom lacks text (progress.after (c.keeping joined front promoted?)) later := by
  have hclause : joined.clause? front = some (c.clause joined.connector joined.keyword front) := by
    rw [Joined.clause?, hcompared]
  rw [hclause]
  simp only [Option.toList_some, List.cons_append, List.nil_append, stepsFrom,
    JoinedAt.decide_kept hkept hremoved, ← hpromoted]
  rfl

theorem stepsFrom_constant {constant : Constant} (hconstant : joined.condition = .constant constant)
    (later : List Clause) :
    stepsFrom lacks text progress ((joined.clause? front).toList ++ later) =
      stepsFrom lacks text progress later := by
  have hclause : joined.clause? front = none := by
    rw [Joined.clause?, hconstant]
  rw [hclause]
  rfl

/-- The removals of a condition lie within it. -/
theorem within_of_mem_removals {e : Edit} (hmem : e ∈ joined.removals front) :
    byteLen front ≤ e.span.start ∧ e.span.stop ≤ byteLen (front ++ joined.written) := by
  unfold Joined.removals at hmem
  split at hmem
  · next c hcompared =>
    have hwritten := joined.written_of_compared hcompared
    rw [hwritten]
    cases hbound : c.bound? with
    | none =>
      obtain rfl : e = _ := by simpa [hbound] using hmem
      simp [Edit.span, ← Nat.add_assoc]
    | some bound =>
      obtain rfl | rfl : e = _ ∨ e = _ := by simpa [hbound] using hmem
      · simp [Edit.span, ← Nat.add_assoc]
      · simp [Edit.span, Bound.upper, Compared.boundWritten, hbound, Bound.written, Nat.add_assoc]
  · simp at hmem

end Steps

/-- What a run over conditions comes to: its edits, in some order, and the names that it prunes. -/
def Yields (run : List Step) (edits : List Edit) (names : List String) : Prop :=
  (editsOf run).Perm edits ∧ run.flatMap Step.prunedNames = names

namespace Yields

variable {run : List Step} {edits : List Edit} {names : List String} {joined : Joined}
  {c : Compared} {front : List Char}

theorem cons_removal (hyields : Yields run edits names)
    (hcompared : joined.condition = .compared c) :
    Yields (c.removal joined.connector joined.keyword front :: run)
      (joined.removals front ++ edits) (c.names ++ names) := by
  refine ⟨?_, ?_⟩
  · rw [editsOf, List.flatMap_cons, Compared.edits_removal hcompared]
    exact hyields.1.append_left _
  · rw [List.flatMap_cons, Compared.prunedNames_removal, hyields.2]

theorem cons_keeping (hyields : Yields run edits names) (promoted? : Option Span) :
    Yields (c.keeping joined front promoted? :: run)
      (promoted?.toList.map .promote ++ edits) names := by
  refine ⟨?_, ?_⟩
  · rw [editsOf, List.flatMap_cons]
    exact hyields.1.append_left _
  · rw [List.flatMap_cons, hyields.2]
    rfl

end Yields

section Phases

variable (lacks : String → Bool) {text after : List Char}

private theorem place_eq (front : List Char) (joined : Joined) :
    front ++ ' ' :: joined.written = front ++ [' '] ++ joined.written := by
  simp

private theorem removedTo_le_of_removal {progress : Progress} {front : List Char} {joined : Joined}
    {c : Compared} (hcompared : joined.condition = .compared c) :
    (progress.after (c.removal joined.connector joined.keyword (front ++ [' ']))).removedTo ≤
      byteLen (front ++ ' ' :: joined.written) := by
  rw [Compared.removedTo_after_removal hcompared, place_eq]

private theorem removedTo_le_of_front {progress : Progress} {front : List Char}
    (hremoved : progress.removedTo ≤ byteLen front) (text : List Char) :
    progress.removedTo ≤ byteLen (front ++ text) := by
  rw [byteLen_append]
  omega

/-- Where no `WHERE` is owed, conditions are removed and nothing else changes. -/
theorem run_settled (others : List Joined) {front : List Char} {progress : Progress}
    (hahead : Ahead text front others after) (hremoved : progress.removedTo ≤ byteLen front)
    (howes : progress.owesWhere = false) :
    Yields (stepsFrom lacks text progress (Joined.clausesBehind front others))
      (Joined.editsBehind lacks false front others)
      (others.flatMap (Joined.removedNames lacks)) := by
  induction others generalizing front progress with
  | nil => exact ⟨.refl _, rfl⟩
  | cons joined others ih =>
    have hremoved' := removedTo_le_of_front hremoved [' ']
    cases hcondition : joined.condition with
    | constant c =>
      rw [Joined.clausesBehind, stepsFrom_constant hcondition]
      simpa [Joined.editsBehind, Joined.removedNames, hcondition, Condition.survives] using
        ih hahead.tail (removedTo_le_of_front hremoved _) howes
    | compared c =>
      cases hlacks : lacks c.placeholder with
      | true =>
        have howes' : (progress.after
            (c.removal joined.connector joined.keyword (front ++ [' ']))).owesWhere = false := by
          rw [Compared.owesWhere_after_removal, howes, Bool.false_or, beq_eq_false_iff_ne]
          exact hahead.isJoining joined List.mem_cons_self
        have hrest := ih hahead.tail (removedTo_le_of_removal hcondition) howes'
        rw [Joined.clausesBehind, stepsFrom_removed hahead.head hcondition hlacks hremoved']
        simpa [Joined.editsBehind, Joined.removedNames, hcondition, Condition.survives, hlacks,
          Condition.names] using hrest.cons_removal hcondition
      | false =>
        have hpromoted : none =
            if progress.owesWhere then firstJoiningOutside? progress.taken text else none := by
          simp [howes]
        have hrest := @ih _ (progress.after (c.keeping joined (front ++ [' ']) none)) hahead.tail
          (removedTo_le_of_front hremoved _) rfl
        rw [Joined.clausesBehind, stepsFrom_kept hcondition hlacks hremoved' hpromoted]
        simpa [Joined.editsBehind, Joined.removedNames, hcondition, Condition.survives, hlacks] using
          hrest.cons_keeping none

/-- The edit that pays the `WHERE` that is owed, if a clause is kept. -/
def Joined.promotions (lacks : String → Bool) (others : List Joined) (span : Span) : List Edit :=
  if others.any (Joined.isKeptClause lacks) then [.promote span] else []

/-- A target in front of the conditions ahead is still the one after some of them are removed. -/
private theorem firstJoiningOutside?_after_removal {taken new : List Span} {target : Span}
    (htarget : firstJoiningOutside? taken text = some target)
    (hnew : ∀ span ∈ new, target.stop ≤ span.start) :
    firstJoiningOutside? (new ++ taken) text = some target := by
  obtain ⟨hmem, hfree, hearlier⟩ := firstJoiningOutside?_eq_some_iff.1 htarget
  refine firstJoiningOutside?_eq_some_iff.2 ⟨hmem, fun other hother => ?_,
    fun earlier hearlierMem hbefore => ?_⟩
  · obtain hother | hother := List.mem_append.1 hother
    · by_contra hoverlaps
      have hstarts := (Span.overlaps_iff.1 (eq_true_of_ne_false hoverlaps)).1
      have hstop := hnew other hother
      omega
    · exact hfree other hother
  · obtain ⟨other, hother, hoverlaps⟩ := hearlier earlier hearlierMem hbefore
    exact ⟨other, List.mem_append_right new hother, hoverlaps⟩

/-- Where a `WHERE` is owed to a condition that is passed already, the first clause that is kept
pays it. -/
theorem run_overdue (others : List Joined) {front : List Char} {progress : Progress} {target : Span}
    (hahead : Ahead text front others after) (hremoved : progress.removedTo ≤ byteLen front)
    (howes : progress.owesWhere = true)
    (htarget : firstJoiningOutside? progress.taken text = some target)
    (hpassed : target.stop ≤ byteLen front) :
    Yields (stepsFrom lacks text progress (Joined.clausesBehind front others))
      (Joined.promotions lacks others target ++ Joined.editsBehind lacks false front others)
      (others.flatMap (Joined.removedNames lacks)) := by
  induction others generalizing front progress with
  | nil => exact ⟨.refl _, rfl⟩
  | cons joined others ih =>
    have hremoved' := removedTo_le_of_front hremoved [' ']
    have hpassed' : target.stop ≤ byteLen (front ++ ' ' :: joined.written) := by
      rw [byteLen_append]
      omega
    cases hcondition : joined.condition with
    | constant c =>
      have hrest := ih hahead.tail (removedTo_le_of_front hremoved _) howes htarget hpassed'
      rw [Joined.clausesBehind, stepsFrom_constant hcondition]
      simpa [Joined.editsBehind, Joined.removedNames, Joined.promotions, Joined.isKeptClause,
        hcondition, Condition.survives, Condition.isCompared] using hrest
    | compared c =>
      cases hlacks : lacks c.placeholder with
      | true =>
        have htarget' : firstJoiningOutside? (progress.after
            (c.removal joined.connector joined.keyword (front ++ [' ']))).taken text =
              some target := by
          rw [Compared.taken_after_removal hcondition]
          refine firstJoiningOutside?_after_removal htarget fun span hspan => ?_
          obtain ⟨e, he, rfl⟩ := List.mem_map.1 hspan
          have hwithin := (within_of_mem_removals he).1
          rw [byteLen_append] at hwithin
          omega
        have howes' : (progress.after
            (c.removal joined.connector joined.keyword (front ++ [' ']))).owesWhere = true := by
          rw [Compared.owesWhere_after_removal, howes, Bool.true_or]
        have hrest := ih hahead.tail (removedTo_le_of_removal hcondition) howes' htarget' hpassed'
        rw [Joined.clausesBehind, stepsFrom_removed hahead.head hcondition hlacks hremoved']
        obtain ⟨hedits, hnames⟩ := hrest.cons_removal hcondition
        have hpromotions : Joined.promotions lacks (joined :: others) target =
            Joined.promotions lacks others target := by
          simp [Joined.promotions, Joined.isKeptClause, hcondition, Condition.survives, hlacks]
        refine ⟨?_, ?_⟩
        · rw [hpromotions]
          refine hedits.trans (List.perm_append_comm_assoc _ _ _) |>.trans ?_
          simp [Joined.editsBehind, hcondition, Condition.survives, hlacks]
        · rw [hnames]
          simp [Joined.removedNames, hcondition, Condition.survives, hlacks, Condition.names]
      | false =>
        have hpromoted : some target =
            if progress.owesWhere then firstJoiningOutside? progress.taken text else none := by
          simp [howes, htarget]
        have hrest := @run_settled lacks text after others _
          (progress.after (c.keeping joined (front ++ [' ']) (some target))) hahead.tail
          (removedTo_le_of_front hremoved _) rfl
        rw [Joined.clausesBehind, stepsFrom_kept hcondition hlacks hremoved' hpromoted]
        simpa [Joined.editsBehind, Joined.removedNames, Joined.promotions, Joined.isKeptClause,
          hcondition, Condition.survives, Condition.isCompared, hlacks] using
          hrest.cons_keeping (some target)

/-- The connector of the condition ahead, where everything in front of it is taken. -/
private theorem firstJoiningOutside?_ahead {front : List Char} {joined : Joined}
    {others : List Joined} {taken : List Span}
    (hahead : Ahead text front (joined :: others) after) (hcovered : Covered text taken front)
    (htaken : ∀ span ∈ taken, span.stop ≤ byteLen front) :
    firstJoiningOutside? taken text = some (.behind (front ++ [' ']) joined.keyword) := by
  have hspace := hahead.covered_space hcovered
  refine firstJoiningOutside?_eq_some_iff.2
    ⟨mem_joiningSpans_iff.2 ⟨_, _, _, hahead.joiningAt⟩, fun other hother => ?_,
      fun earlier hmem hbefore => hspace earlier hmem hbefore⟩
  by_contra hoverlaps
  have hstarts := (Span.overlaps_iff.1 (eq_true_of_ne_false hoverlaps)).2
  have hstop := htaken other hother
  rw [Span.behind_start, byteLen_append] at hstarts
  omega

/-- Where a `WHERE` is owed and no condition is left in front, the next one that is left gets it, if
a clause is kept. -/
theorem run_unsettled (others : List Joined) {front : List Char} {progress : Progress}
    (hahead : Ahead text front others after) (hremoved : progress.removedTo ≤ byteLen front)
    (howes : progress.owesWhere = true) (hcovered : Covered text progress.taken front)
    (htaken : ∀ span ∈ progress.taken, span.stop ≤ byteLen front) :
    Yields (stepsFrom lacks text progress (Joined.clausesBehind front others))
      (Joined.editsBehind lacks (others.any (Joined.isKeptClause lacks)) front others)
      (others.flatMap (Joined.removedNames lacks)) := by
  induction others generalizing front progress with
  | nil => exact ⟨.refl _, rfl⟩
  | cons joined others ih =>
    have hremoved' := removedTo_le_of_front hremoved [' ']
    have htarget := firstJoiningOutside?_ahead hahead hcovered htaken
    cases hcondition : joined.condition with
    | constant c =>
      have hpassed : (Span.behind (front ++ [' ']) joined.keyword).stop ≤
          byteLen (front ++ ' ' :: joined.written) := by
        rw [place_eq, Joined.written, ← List.append_assoc, byteLen_append (front ++ [' '] ++ _),
          byteLen_append (front ++ [' ']), Span.behind_stop]
        omega
      have hrest := run_overdue lacks others hahead.tail (removedTo_le_of_front hremoved _) howes htarget
        hpassed
      rw [Joined.clausesBehind, stepsFrom_constant hcondition]
      simpa [Joined.editsBehind, Joined.removedNames, Joined.promotions, Joined.isKeptClause,
        hcondition, Condition.survives, Condition.isCompared] using hrest
    | compared c =>
      cases hlacks : lacks c.placeholder with
      | true =>
        have howes' : (progress.after
            (c.removal joined.connector joined.keyword (front ++ [' ']))).owesWhere = true := by
          rw [Compared.owesWhere_after_removal, howes, Bool.true_or]
        have hcovered' : Covered text (progress.after
            (c.removal joined.connector joined.keyword (front ++ [' ']))).taken
              (front ++ ' ' :: joined.written) := by
          rw [Compared.taken_after_removal hcondition, place_eq]
          exact (hahead.covered_space hcovered).append_removed hcondition hahead.head
        have htaken' : ∀ span ∈ (progress.after
            (c.removal joined.connector joined.keyword (front ++ [' ']))).taken,
              span.stop ≤ byteLen (front ++ ' ' :: joined.written) := by
          rw [Compared.taken_after_removal hcondition, place_eq]
          intro span hspan
          obtain hspan | hspan := List.mem_append.1 hspan
          · obtain ⟨e, he, rfl⟩ := List.mem_map.1 hspan
            exact (within_of_mem_removals he).2
          · have hstop := htaken span hspan
            rw [byteLen_append, byteLen_append]
            omega
        have hrest := ih hahead.tail (removedTo_le_of_removal hcondition) howes' hcovered' htaken'
        rw [Joined.clausesBehind, stepsFrom_removed hahead.head hcondition hlacks hremoved']
        simpa [Joined.editsBehind, Joined.removedNames, Joined.isKeptClause, hcondition,
          Condition.survives, Condition.names, hlacks] using hrest.cons_removal hcondition
      | false =>
        have hpromoted : some (.behind (front ++ [' ']) joined.keyword) =
            if progress.owesWhere then firstJoiningOutside? progress.taken text else none := by
          simp [howes, htarget]
        have hrest := @run_settled lacks text after others _
          (progress.after (c.keeping joined (front ++ [' '])
            (some (.behind (front ++ [' ']) joined.keyword)))) hahead.tail
          (removedTo_le_of_front hremoved _) rfl
        rw [Joined.clausesBehind, stepsFrom_kept hcondition hlacks hremoved' hpromoted]
        simpa [Joined.editsBehind, Joined.removedNames, Joined.isKeptClause, hcondition,
          Condition.survives, Condition.isCompared, hlacks] using hrest.cons_keeping (some _)

end Phases

end SqlTemplate.Filter
