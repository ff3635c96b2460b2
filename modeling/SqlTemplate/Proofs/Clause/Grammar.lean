import SqlTemplate.Proofs.Clause.Places

namespace SqlTemplate

open Connector

/-- A word begins or ends between `front` and `rest`. -/
def IsWordBoundary (front rest : List Char) : Prop :=
  isWordBeside (lastFrom none front) ≠ isWordBeside rest.head?

namespace Clause

/-- Non-empty segments of column characters with dots between them. -/
def IsDottedPath (path : List Char) : Prop :=
  ∃ segments, segments ≠ [] ∧ (∀ s ∈ segments, s ≠ [] ∧ ∀ c ∈ s, isColumnChar c) ∧
    path = ['.'].intercalate segments

/-- Within a segment a path goes on with the rest of it, which may be empty, and more segments. -/
theorem isPathFrom_iff {inSegment : Bool} {path : List Char} :
    IsPathFrom inSegment path ↔
      ∃ first later, path = ['.'].intercalate (first :: later) ∧
        (inSegment = false → first ≠ []) ∧ (∀ c ∈ first, isColumnChar c) ∧
        ∀ s ∈ later, s ≠ [] ∧ ∀ c ∈ s, isColumnChar c := by
  induction path generalizing inSegment with
  | nil =>
    constructor
    · intro hpath
      refine ⟨[], [], rfl, ?_, by simp, by simp⟩
      intro hout
      cases hpath.symm.trans hout
    · intro hsegments
      obtain ⟨first, later, hpath, hfirst, _⟩ := hsegments
      cases inSegment with
      | true => rfl
      | false =>
        cases later with
        | nil => exact absurd (by simpa using hpath.symm) (hfirst rfl)
        | cons s later => simp [List.intercalate_cons_cons] at hpath
  | cons c cs ih =>
    constructor
    · intro hpath
      obtain ⟨hcolumn, htail⟩ | ⟨_, rfl, rfl, htail⟩ := hpath
      · obtain ⟨first, later, rfl, _, hfirst, hlater⟩ := ih.1 htail
        refine ⟨c :: first, later, ?_, by simp, ?_, hlater⟩
        · cases later <;> simp
        · exact List.forall_mem_cons.2 ⟨hcolumn, hfirst⟩
      · obtain ⟨first, later, rfl, hne, hfirst, hlater⟩ := ih.1 htail
        refine ⟨[], first :: later, by simp, by simp, by simp, ?_⟩
        exact List.forall_mem_cons.2 ⟨⟨hne rfl, hfirst⟩, hlater⟩
    · intro hsegments
      obtain ⟨first, later, hpath, hne, hfirst, hlater⟩ := hsegments
      cases first with
      | nil =>
        cases later with
        | nil => simp at hpath
        | cons s later =>
          obtain ⟨hs, hlater⟩ := List.forall_mem_cons.1 hlater
          obtain ⟨rfl, rfl⟩ : c = '.' ∧ cs = ['.'].intercalate (s :: later) := by
            simpa using hpath
          have hout : inSegment = true := by simpa using hne
          exact .inr ⟨by decide, hout, rfl, ih.2 ⟨s, later, rfl, fun _ => hs.1, hs.2, hlater⟩⟩
      | cons d first =>
        obtain ⟨hcolumn, hrest⟩ := List.forall_mem_cons.1 hfirst
        obtain ⟨rfl, rfl⟩ : c = d ∧ cs = ['.'].intercalate (first :: later) := by
          cases later <;> simpa using hpath
        exact .inl ⟨hcolumn, ih.2 ⟨first, later, rfl, by simp, hrest, hlater⟩⟩

theorem isPathFrom_false_iff {path : List Char} : IsPathFrom false path ↔ IsDottedPath path := by
  rw [isPathFrom_iff]
  constructor
  · intro hsegments
    obtain ⟨first, later, hpath, hne, hfirst, hlater⟩ := hsegments
    exact ⟨first :: later, by simp, List.forall_mem_cons.2 ⟨⟨hne rfl, hfirst⟩, hlater⟩, hpath⟩
  · intro hdotted
    obtain ⟨segments, hne, hsegments, hpath⟩ := hdotted
    obtain ⟨first, later, rfl⟩ := List.exists_cons_of_ne_nil hne
    obtain ⟨hfirst, hlater⟩ := List.forall_mem_cons.1 hsegments
    exact ⟨first, later, hpath, fun _ => hfirst.1, hfirst.2, hlater⟩

namespace Reading

variable {reading other : Reading}

/-- Every part of a clause is what the grammar has in its place: a connector, one space, a dotted
column path, blanks, an operator, blanks, a colon and a name. -/
structure InGrammar (reading : Reading) : Prop where
  keyword : Spells reading.keyword reading.connector
  column : IsDottedPath reading.column
  comparison : reading.comparison.WellFormed

theorem inGrammar_iff : reading.InGrammar ↔ reading.WellFormed := by
  constructor
  · intro hgrammar
    exact ⟨hgrammar.keyword, isPathFrom_false_iff.2 hgrammar.column, hgrammar.comparison⟩
  · intro hwell
    exact ⟨hwell.keyword, isPathFrom_false_iff.1 hwell.column, hwell.comparison⟩

/-- The reading with `more` at the end of its name. -/
def extend (reading : Reading) (more : List Char) : Reading :=
  { reading with
    comparison :=
      { reading.comparison with placeholder := reading.comparison.placeholder ++ more } }

theorem written_extend (reading : Reading) (more : List Char) :
    (reading.extend more).written = reading.written ++ more := by
  simp [extend, written, Comparison.written]

theorem extend_nil (reading : Reading) : reading.extend [] = reading := by
  simp [extend]

namespace WellFormed

theorem extend (hwell : reading.WellFormed) {more : List Char}
    (hmore : ∀ c ∈ more, isNamePart isFoldedLetter c) : (reading.extend more).WellFormed := by
  obtain ⟨hkeyword, hcolumn, hbefore, hoperator, hafter, hname⟩ := hwell
  refine ⟨hkeyword, hcolumn, hbefore, hoperator, hafter, ?_⟩
  exact hname.append hmore

/-- What is read where a reading stands is that reading, with all of the name. -/
theorem read?_append (hwell : reading.WellFormed) (later : List Char) :
    read? (reading.written ++ later) =
      some (reading.extend (later.takeWhile (isNamePart isFoldedLetter))) := by
  apply read?_eq_some_iff.2
  refine ⟨later.dropWhile (isNamePart isFoldedLetter), ?_, ?_, ?_⟩
  · rw [written_extend, List.append_assoc, List.takeWhile_append_dropWhile]
  · apply hwell.extend
    intro c hc
    exact List.mem_takeWhile_imp hc
  · exact endsName_dropWhile isFoldedLetter later

/-- A text has at most one reading. -/
theorem eq_of_written_eq (hwell : reading.WellFormed) (hother : other.WellFormed)
    (hwritten : reading.written = other.written) : reading = other := by
  have hread := hwell.read?_append []
  rw [hwritten, hother.read?_append [], List.takeWhile_nil, extend_nil, extend_nil] at hread
  exact (Option.some.inj hread).symm

/-- A clause begins with a letter, so it begins at a word boundary just if no word ends there. -/
theorem isWordBoundary_iff (hwell : reading.WellFormed) {front rest : List Char} :
    IsWordBoundary front (reading.written ++ rest) ↔
      isWordBeside (lastFrom none front) = false := by
  obtain ⟨c, cs, hwritten, hletter⟩ := hwell.exists_cons
  have hword : isWordBeside (reading.written ++ rest).head? = true := by
    rw [hwritten]
    exact isWordChar_of_isNamePart
      (isNamePart_of_isFoldedLetter (isFoldedLetter_of_isAlpha hletter))
  rw [IsWordBoundary, hword, ne_eq, Bool.not_eq_true]

end WellFormed

end Reading

/-- A reading by the grammar stands behind `front`, at a word boundary. Its name may be one that
goes on in `rest`. -/
structure ShapeAt (text front : List Char) (reading : Reading) (rest : List Char) : Prop where
  text_eq : text = front ++ reading.written ++ rest
  boundary : IsWordBoundary front (reading.written ++ rest)
  grammar : reading.InGrammar

theorem Reading.WellFormed.shapeAt {text front rest : List Char} {reading : Reading}
    (hwell : reading.WellFormed) (htext : text = front ++ reading.written ++ rest)
    (hfree : isWordBeside (lastFrom none front) = false) : ShapeAt text front reading rest :=
  ⟨htext, hwell.isWordBoundary_iff.2 hfree, Reading.inGrammar_iff.2 hwell⟩

namespace ShapeAt

variable {text front rest rest' : List Char} {reading other : Reading}

theorem wellFormed (hshape : ShapeAt text front reading rest) : reading.WellFormed :=
  Reading.inGrammar_iff.1 hshape.grammar

theorem free (hshape : ShapeAt text front reading rest) :
    isWordBeside (lastFrom none front) = false :=
  hshape.wellFormed.isWordBoundary_iff.1 hshape.boundary

/-- Where the name ends, the reading is the longest at its place: any other has less of the name. -/
theorem exists_extend (hshape : ShapeAt text front reading rest)
    (hends : EndsName isFoldedLetter rest) (hother : ShapeAt text front other rest') :
    ∃ more, reading = other.extend more := by
  have hrest : reading.written ++ rest = other.written ++ rest' := by
    have htext := hshape.text_eq.symm.trans hother.text_eq
    rw [List.append_assoc, List.append_assoc] at htext
    exact List.append_cancel_left htext
  have hread : Reading.read? (reading.written ++ rest) = some reading :=
    Reading.read?_eq_some_iff.2 ⟨rest, rfl, hshape.wellFormed, hends⟩
  rw [hrest, hother.wellFormed.read?_append rest'] at hread
  exact ⟨_, (Option.some.inj hread).symm⟩

/-- Where the grammar applies, something is found there, or something found reaches over the
place. -/
theorem exists_found (hshape : ShapeAt text front reading rest) :
    ∃ m ∈ recogniser.scan text, m.span.start ≤ byteLen front ∧ byteLen front < m.span.stop := by
  obtain ⟨rest', hwhole, hwell, hends⟩ :=
    Reading.read?_eq_some_iff.1 (hshape.wellFormed.read?_append rest)
  generalize reading.extend (rest.takeWhile (isNamePart isFoldedLetter)) = whole at hwhole hwell
  have hread : recogniser.read? (lastFrom none front) (whole.written ++ rest') =
      some (whole.written, whole) :=
    recogniser_read?_eq_some_iff.2 ⟨hshape.free, rfl, rest', rfl, hwell, hends⟩
  have htext : front ++ whole.written ++ rest' = text := by
    rw [List.append_assoc, ← hwhole, ← List.append_assoc, hshape.text_eq]
  have hfound := recogniser.mem_scanFrom_or_within 0 hread
  rw [htext, ← Recogniser.scan_eq_scanFrom, Nat.zero_add] at hfound
  obtain hfound | ⟨m, hfound, hstart, hstop⟩ := hfound
  · have hpos := byteLen_pos (Reading.written_ne_nil whole)
    refine ⟨_, hfound, Nat.le_refl _, ?_⟩
    exact Nat.lt_add_of_pos_right hpos
  · exact ⟨m, hfound, Nat.le_of_lt hstart, hstop⟩

end ShapeAt

/-- The operator is written with a long s or a Kelvin sign. -/
def Comparison.OperatorBeyondAscii (comparison : Comparison) : Prop :=
  ∃ c ∈ comparison.operator, c = '\u017F' ∨ c = '\u212A'

/-- A find of the scan means nothing just if its operator is written beyond ASCII. -/
theorem Reading.WellFormed.ofMatch?_eq_none_iff {m : Match Reading} (hwell : m.value.WellFormed) :
    ofMatch? m = none ↔ m.value.comparison.OperatorBeyondAscii := by
  obtain ⟨operator, hspells⟩ := hwell.comparison.operator
  rw [ofMatch?, Option.map_eq_none_iff]
  exact Operator.ofToken?_eq_none_iff hspells

/-- A clause stands in a text as the grammar has it. Its slice of the text has one reading, none at
its place goes on further, and its parts are the parts of that reading. -/
structure ReadsAs (text : List Char) (clause : Clause) (front : List Char) (reading : Reading)
    (rest : List Char) : Prop where
  shape : ShapeAt text front reading rest
  span_eq : clause.span = .behind front reading.written
  slice : clause.span.slice? text = some reading.written
  unique : ∀ other : Reading, other.InGrammar → other.written = reading.written → other = reading
  longest : ∀ other rest', ShapeAt text front other rest' → ∃ more, reading = other.extend more
  connector : clause.connector = reading.connector
  column : clause.column = String.ofList reading.column
  operator : Operator.Spells reading.comparison.operator clause.operator
  placeholder : clause.placeholder = String.ofList reading.comparison.placeholder

theorem At.readsAs {text front rest : List Char} {clause : Clause} {reading : Reading}
    (hat : At text clause front reading rest) : ReadsAs text clause front reading rest := by
  have hshape := hat.wellFormed.shapeAt hat.text_eq hat.free
  have hunique : ∀ other : Reading, other.InGrammar → other.written = reading.written →
      other = reading := by
    intro other hother hwritten
    exact (Reading.inGrammar_iff.1 hother).eq_of_written_eq hat.wellFormed hwritten
  have hslice : clause.span.slice? text = some reading.written :=
    Span.slice?_eq_some_iff.2 ⟨front, rest, hat.text_eq, hat.span_eq⟩
  have hlongest : ∀ other rest', ShapeAt text front other rest' →
      ∃ more, reading = other.extend more := by
    intro other rest' hother
    exact hshape.exists_extend hat.ends hother
  obtain ⟨operator, htoken, rfl⟩ := hat.exists_operator
  have hspells := Operator.spells_of_sameIgnoringCase (Operator.sameIgnoringCase_of_ofToken? htoken)
  exact ⟨hshape, rfl, hslice, hunique, hlongest, rfl, rfl, hspells, rfl⟩

/-- The scan for clauses accepts its grammar, reads it in one way and leaves nothing out. What it
finds follows one another without overlap and is written as the grammar says. The clauses are the
finds but for those whose operator is written beyond ASCII, and each has the one reading of its
slice, with the longest name. Where the grammar applies at a word boundary, the place lies in a
find. -/
theorem clauses_read_by_grammar (text : List Char) :
    ((recogniser.scan text).Pairwise fun m n => m.span.stop ≤ n.span.start) ∧
      (∀ m ∈ recogniser.scan text, m.span.start < m.span.stop ∧
        (∃ front rest, ShapeAt text front m.value rest ∧
          m.span = .behind front m.value.written) ∧
        (ofMatch? m = none ↔ m.value.comparison.OperatorBeyondAscii)) ∧
      (∀ clause ∈ clauses text, ∃ front reading rest, ReadsAs text clause front reading rest) ∧
      ∀ front reading rest, ShapeAt text front reading rest →
        ∃ m ∈ recogniser.scan text, (m.span.start ≤ byteLen front ∧ byteLen front < m.span.stop) ∧
          ((∃ clause ∈ clauses text, clause.span = m.span) ∨
            m.value.comparison.OperatorBeyondAscii) := by
  refine ⟨?_, ?_, ?_, ?_⟩
  · rw [Recogniser.scan_eq_scanFrom]
    exact recogniser.pairwise_scanFrom 0 none text
  · intro m hfound
    obtain ⟨front, rest, htext, hspan, hwell, hfree, _⟩ := exists_of_mem_scan hfound
    have hpos := byteLen_pos m.value.written_ne_nil
    refine ⟨?_, ⟨front, rest, hwell.shapeAt htext hfree, hspan⟩, hwell.ofMatch?_eq_none_iff⟩
    rw [hspan]
    exact Nat.lt_add_of_pos_right hpos
  · intro clause hclause
    obtain ⟨front, reading, rest, hat⟩ := exists_at_of_mem_clauses hclause
    exact ⟨front, reading, rest, hat.readsAs⟩
  · intro front reading rest hshape
    obtain ⟨m, hfound, hwithin⟩ := hshape.exists_found
    refine ⟨m, hfound, hwithin, ?_⟩
    cases hmeans : ofMatch? m with
    | none =>
      obtain ⟨_, _, _, _, hwell, _⟩ := exists_of_mem_scan hfound
      exact .inr (hwell.ofMatch?_eq_none_iff.1 hmeans)
    | some clause =>
      refine .inl ⟨clause, List.mem_filterMap.2 ⟨m, hfound, hmeans⟩, ?_⟩
      obtain ⟨_, _, rfl⟩ := Option.map_eq_some_iff.1 hmeans
      rfl

example : (clauses "WHERE t.paidIS :paid".toList).map column = ["t.paid"] := by decide +kernel

end Clause

end SqlTemplate
