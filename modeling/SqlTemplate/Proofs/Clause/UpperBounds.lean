import SqlTemplate.Proofs.Clause.Grammar

namespace SqlTemplate

open Connector

variable {text front rest : List Char}

/-- A word that begins in an upper bound or in the blanks in front of it is its connector or its
name. -/
theorem UpperBound.At.eq_or_eq_of_free {upper : UpperBound} {blanks keyword name : List Char}
    (hat : UpperBound.At text upper front blanks keyword name rest) {gap tail : List Char}
    {c : Char} (hgap : blanks ++ (keyword ++ ' ' :: ':' :: name) = gap ++ c :: tail)
    (hletter : c.isAlpha)
    (hfree : isWordBeside (lastFrom none (front ++ gap)) = false) :
    gap = blanks ∨ gap = blanks ++ keyword ++ [' ', ':'] := by
  -- Within the connector or the name, a character of the word stands in front.
  have hend : ∀ init word, gap = init ++ word → (∀ d ∈ word, isWordChar d) → word = [] := by
    rintro init word rfl hword
    by_contra hne
    obtain ⟨d, hd, hlast⟩ := lastFrom_mem (lastFrom none (front ++ init)) hne
    rw [← List.append_assoc, lastFrom_append, hlast, isWordBeside_some, hword d hd] at hfree
    cases hfree
  obtain ⟨behind, rfl, hbehind⟩ | ⟨blanks', rfl, htail⟩ := List.append_eq_append_iff.1 hgap
  · obtain ⟨within, rfl, hwithin⟩ | ⟨keyword', rfl, _⟩ := List.append_eq_append_iff.1 hbehind
    · cases within with
      | nil =>
        obtain ⟨rfl, _⟩ := List.cons.inj hwithin
        cases hletter
      | cons d within =>
        obtain ⟨rfl, hcolon⟩ := List.cons.inj hwithin
        cases within with
        | nil =>
          obtain ⟨rfl, _⟩ := List.cons.inj hcolon
          cases hletter
        | cons e word =>
          obtain ⟨rfl, rfl⟩ := List.cons.inj hcolon
          refine .inr ?_
          obtain rfl := hend (blanks ++ keyword ++ [' ', ':']) word (by simp) fun d hd =>
            isWordChar_of_isNamePart (hat.name.isNamePart d (List.mem_append_left _ hd))
          simp
    · obtain rfl := hend blanks behind rfl fun d hd =>
        hat.keyword.isWordChar d (List.mem_append_left _ hd)
      exact .inl (List.append_nil blanks)
  · cases blanks' with
    | nil => exact .inl (List.append_nil gap).symm
    | cons d blanks' =>
      obtain ⟨rfl, _⟩ := List.cons.inj htail
      have hblank := hat.blanks c (by simp)
      rw [isBlank_of_isWordChar (isWordChar_of_isNamePart
        (isNamePart_of_isFoldedLetter (isFoldedLetter_of_isAlpha hletter)))] at hblank
      cases hblank

namespace Clause

variable {clause : Clause} {reading : Reading}

/-- Behind the connector of a clause stands a column, behind that of an upper bound a colon. -/
theorem Reading.WellFormed.written_append_ne (hwell : reading.WellFormed)
    {keyword : List Char} {connector : Connector} (hspells : Spells keyword connector)
    (later : List Char) : reading.written ++ rest ≠ keyword ++ ' ' :: ':' :: later := by
  intro hsame
  have hclause : take? (reading.written ++ rest) = some (reading.connector, reading.keyword,
      ' ' :: (reading.column ++ (reading.comparison.written ++ rest))) :=
    take?_eq_some_iff.2 ⟨by simp [Reading.written], hwell.keyword⟩
  rw [hsame, take?_eq_some_iff.2 ⟨rfl, hspells⟩] at hclause
  simp only [Option.some.injEq, Prod.mk.injEq, List.cons.injEq, true_and] at hclause
  obtain ⟨c, cs, hcolumn⟩ := List.exists_cons_of_ne_nil hwell.column.ne_nil
  have hcolon : ':' = c := by
    rw [hcolumn] at hclause
    exact (List.cons.inj hclause.2.2).1
  refine not_isPathChar_colon (hwell.column.isPathChar ':' ?_)
  rw [hcolumn, hcolon]
  exact List.mem_cons_self

/-- A clause that begins in an upper bound, or in the blanks in front of it, begins at its name. -/
theorem At.front_eq_of_within (hat : At text clause front reading rest) {upper : UpperBound}
    {front' blanks keyword name rest' : List Char}
    (hupper : UpperBound.At text upper front' blanks keyword name rest')
    (hstart : byteLen front' ≤ clause.span.start) (hstop : clause.span.start < upper.span.stop) :
    front = front' ++ blanks ++ keyword ++ [' ', ':'] := by
  have htext : front' ++ (blanks ++ (keyword ++ ' ' :: ':' :: name) ++ rest') =
      front ++ (reading.written ++ rest) := by
    rw [← List.append_assoc, ← List.append_assoc front, ← hat.text_eq, hupper.text_eq]
    simp
  rw [hat.span_eq, Span.behind_start] at hstart hstop
  rw [hupper.span_eq, Span.behind_stop] at hstop
  obtain ⟨gap, rfl, hgap⟩ := exists_append_of_byteLen_le htext hstart
  obtain ⟨tail, hsplit, htail⟩ := exists_append_of_byteLen_le hgap.symm (by
    simp only [byteLen_append] at hstop ⊢
    omega)
  have hne : tail ≠ [] := by
    rintro rfl
    have hlen := congrArg byteLen hsplit
    simp only [List.append_nil, byteLen_append] at hlen hstop
    omega
  obtain ⟨c, cs, hwritten, hletter⟩ := hat.wellFormed.exists_cons
  obtain ⟨d, tail, rfl⟩ := List.exists_cons_of_ne_nil hne
  obtain rfl : c = d := by
    rw [hwritten] at htail
    exact (List.cons.inj htail).1
  obtain rfl | rfl := hupper.eq_or_eq_of_free hsplit hletter hat.free
  · -- At the connector the upper bound would be read as the clause.
    exfalso
    have hbehind := List.append_cancel_left hsplit
    have hsame : reading.written ++ rest = keyword ++ ' ' :: ':' :: (name ++ rest') := by
      rw [htail, ← hbehind]
      simp
    exact hat.wellFormed.written_append_ne hupper.keyword _ hsame
  · simp

end Clause

/-- A connector begins at a word boundary just if no word ends in front of it. -/
theorem isWordBoundary_of_spells {keyword : List Char} {connector : Connector}
    (hspells : Spells keyword connector) :
    IsWordBoundary front (keyword ++ rest) ↔ isWordBeside (lastFrom none front) = false := by
  obtain ⟨c, cs, rfl⟩ := List.exists_cons_of_ne_nil hspells.ne_nil
  have hword : isWordBeside (c :: cs ++ rest).head? = true :=
    hspells.isWordChar c List.mem_cons_self
  rw [IsWordBoundary, hword, ne_eq, Bool.not_eq_true]

/-- A clause that begins at the name of an upper bound has this name as its connector. -/
theorem Clause.At.name_eq_keyword {clause : Clause} {reading : Reading} {upper : UpperBound}
    {front' blanks keyword name rest' : List Char}
    (hat : At text clause (front' ++ blanks ++ keyword ++ [' ', ':']) reading rest)
    (hupper : UpperBound.At text upper front' blanks keyword name rest') :
    name = reading.keyword := by
  have htext : (front' ++ blanks ++ keyword ++ [' ', ':']) ++ (name ++ rest') =
      (front' ++ blanks ++ keyword ++ [' ', ':']) ++ (reading.keyword ++
        ' ' :: (reading.column ++ reading.comparison.written ++ rest)) := by
    calc (front' ++ blanks ++ keyword ++ [' ', ':']) ++ (name ++ rest')
      _ = text := by rw [hupper.text_eq]; simp
      _ = _ := by rw [hat.text_eq]; simp [Reading.written]
  have hspace : EndsName isFoldedLetter
      (' ' :: (reading.column ++ reading.comparison.written ++ rest)) := .cons (by decide) _
  exact hupper.name.eq_of_append_eq hat.wellFormed.keyword.isName hupper.ends hspace
    (List.append_cancel_left htext)

/-- An upper bound as it stands in the whole text, behind a clause that ends at byte `offset`. -/
structure UpperBound.Fits (text : List Char) (offset : Nat) (upper : UpperBound)
    (front blanks keyword name rest : List Char) : Prop where
  text_eq : text = front ++ blanks ++ (keyword ++ ' ' :: ':' :: name) ++ rest
  offset_eq : byteLen front = offset
  span_eq : upper.span = .behind (front ++ blanks) (keyword ++ ' ' :: ':' :: name)
  placeholder_eq : upper.placeholder = String.ofList name
  /-- Blanks stand between the clause and the upper bound, and at least one. -/
  blanks_ne_nil : blanks ≠ []
  isBlank : ∀ c ∈ blanks, isBlank c
  /-- In the whole text a word begins with the upper bound. -/
  boundary : IsWordBoundary (front ++ blanks) (keyword ++ ' ' :: ':' :: name ++ rest)
  /-- The name does not go on in the text. -/
  isName : IsName isFoldedLetter name
  ends : EndsName isFoldedLetter rest
  /-- A clause that begins before the upper bound ends begins at its name, and the name is the
  connector of that clause. -/
  clauses : ∀ other ∈ clauses text, offset ≤ other.span.start → other.span.start < upper.span.stop →
    other.span.start = byteLen (front ++ blanks ++ keyword ++ [' ', ':']) ∧
      sameIgnoringCase name other.connector.letters

/-- The upper bound behind a clause fits the whole text, though it is read as if the text began
there: it stands apart from the clause, at a word boundary, with all of its name, and no clause
begins in it but one that has its name as the connector. The clause may be any, also one that is no
`BETWEEN`. -/
theorem upperBoundAt?_fits_text {clause : Clause} {upper : UpperBound}
    (hclause : clause ∈ clauses text) (hupper : upperBoundAt? text clause.span.stop = some upper) :
    ∃ front blanks keyword name rest,
      upper.Fits text clause.span.stop front blanks keyword name rest := by
  obtain ⟨front, blanks, keyword, name, rest, hlen, hne, hat⟩ :=
    UpperBound.exists_at_of_mem_clauses hclause hupper
  have hboundary : IsWordBoundary (front ++ blanks) (keyword ++ ' ' :: ':' :: name ++ rest) := by
    rw [List.append_assoc]
    exact (isWordBoundary_of_spells hat.keyword).2 (hat.conditionAt hne).free
  refine ⟨front, blanks, keyword, name, rest, hat.text_eq, hlen, hat.span_eq, hat.placeholder_eq,
    hne, hat.blanks, hboundary, hat.name, hat.ends, ?_⟩
  intro other hother hstart hstop
  obtain ⟨front', reading, rest', hatOther⟩ := Clause.exists_at_of_mem_clauses hother
  rw [← hlen] at hstart
  obtain rfl := hatOther.front_eq_of_within hat hstart hstop
  refine ⟨by rw [hatOther.span_eq, Span.behind_start], ?_⟩
  rw [hatOther.name_eq_keyword hat, hatOther.connector_eq]
  exact hatOther.wellFormed.keyword.sameIgnoringCase

/-- Behind a wide blank stands an upper bound whose name is the connector of a clause. -/
theorem upperBoundAt?_fits_text_or :
    let text := "SELECT é FROM t WHERE a BETWEEN :lo\u3000and :Or x = :y".toList
    let clause : Clause := ⟨⟨17, 36⟩, .where_, "a", .between, "lo"⟩
    let upper : UpperBound := ⟨⟨39, 46⟩, .and, "Or"⟩
    clauses text = [clause, ⟨⟨44, 53⟩, .or, "x", .equal, "y"⟩] ∧
      (clause ∈ clauses text ∧ upperBoundAt? text clause.span.stop = some upper) ∧
      ∃ front blanks keyword name rest,
        upper.Fits text clause.span.stop front blanks keyword name rest := by
  intro text clause upper
  have hclauses : clauses text = [clause, ⟨⟨44, 53⟩, .or, "x", .equal, "y"⟩] := by decide +kernel
  have hclause : clause ∈ clauses text := by
    rw [hclauses]
    exact List.mem_cons_self
  have hupper : upperBoundAt? text clause.span.stop = some upper := by decide +kernel
  exact ⟨hclauses, ⟨hclause, hupper⟩, upperBoundAt?_fits_text hclause hupper⟩

end SqlTemplate
