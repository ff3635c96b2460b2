import SqlTemplate.Proofs.Placeholder.Places

namespace SqlTemplate

/-- A text cut at names: what stands in front of each name, the name, and what follows the last. -/
structure Cut where
  marks : List (List Char × List Char)
  rest : List Char

namespace Cut

/-- The text of a cut, in which names are written as `write` says. -/
def text (write : List Char → List Char) (cut : Cut) : List Char :=
  cut.marks.flatMap (fun (front, name) => front ++ write name) ++ cut.rest

/-- A name as a placeholder writes it. -/
def named (name : List Char) : List Char :=
  ':' :: name

/-- A question mark in the place of a name. -/
def marked (_ : List Char) : List Char :=
  ['?']

def names (cut : Cut) : List String :=
  cut.marks.map fun (_, name) => String.ofList name

/-- The placeholders at the names of a cut, whose text begins at byte `start`. -/
def placesFrom : Nat → List (List Char × List Char) → List Placeholder
  | _, [] => []
  | start, (front, name) :: marks =>
    .at (start + byteLen front) name ::
      placesFrom (start + byteLen front + byteLen (named name)) marks

/-- The cut is one of the text, at all placeholders of the text and nowhere else. -/
structure Of (cut : Cut) (text : List Char) : Prop where
  text_eq : text = cut.text named
  places : placeholders text = placesFrom 0 cut.marks

@[simp]
theorem text_cons (write : List Char → List Char) (front name : List Char)
    (marks : List (List Char × List Char)) (rest : List Char) :
    text write ⟨(front, name) :: marks, rest⟩ =
      front ++ (write name ++ text write ⟨marks, rest⟩) := by
  simp [text]

@[simp]
theorem text_nil (write : List Char → List Char) (rest : List Char) :
    text write ⟨[], rest⟩ = rest := rfl

theorem map_name_placesFrom (start : Nat) (marks : List (List Char × List Char)) :
    (placesFrom start marks).map Placeholder.name =
      marks.map fun (_, name) => String.ofList name := by
  induction marks generalizing start with
  | nil => rfl
  | cons mark marks ih =>
    rw [placesFrom, List.map_cons, List.map_cons, ih]
    rfl

theorem Of.names_eq {cut : Cut} {text : List Char} (hof : cut.Of text) :
    cut.names = placeholderNames text := by
  rw [placeholderNames, hof.places, map_name_placesFrom, names]

/-- The places of the names and the text leave no choice where to cut. -/
theorem eq_of_placesFrom_eq {marks marks' : List (List Char × List Char)} {rest rest' : List Char}
    {start : Nat} (htext : text named ⟨marks, rest⟩ = text named ⟨marks', rest'⟩)
    (hplaces : placesFrom start marks = placesFrom start marks') :
    marks = marks' ∧ rest = rest' := by
  induction marks generalizing marks' start with
  | nil =>
    cases marks' with
    | nil => exact ⟨rfl, htext⟩
    | cons mark' marks' => cases hplaces
  | cons mark marks ih =>
    cases marks' with
    | nil => cases hplaces
    | cons mark' marks' =>
      obtain ⟨front, name⟩ := mark
      obtain ⟨front', name'⟩ := mark'
      obtain ⟨hfirst, hothers⟩ := List.cons.inj hplaces
      obtain ⟨hspan, hname⟩ := Placeholder.mk.inj hfirst
      obtain rfl : name = name' := String.ofList_injective hname
      have hlen : byteLen front = byteLen front' := by
        have hstart := congrArg Span.start hspan
        simp only at hstart
        omega
      rw [text_cons, text_cons] at htext
      obtain ⟨rfl, hbehind⟩ := append_inj_of_byteLen_eq htext hlen
      obtain ⟨rfl, rfl⟩ := ih (List.append_cancel_left hbehind) hothers
      exact ⟨rfl, rfl⟩

/-- A text is cut in one way only. -/
theorem Of.unique {cut cut' : Cut} {text : List Char} (hof : cut.Of text) (hof' : cut'.Of text) :
    cut = cut' := by
  obtain ⟨marks, rest⟩ := cut
  obtain ⟨marks', rest'⟩ := cut'
  obtain ⟨rfl, rfl⟩ := eq_of_placesFrom_eq (hof.text_eq.symm.trans hof'.text_eq)
    (hof.places.symm.trans hof'.places)
  rfl

/-- The cut of a longer text, with more in front. -/
def prepend (front : List Char) : Cut → Cut
  | ⟨[], rest⟩ => ⟨[], front ++ rest⟩
  | ⟨(front', name) :: marks, rest⟩ => ⟨(front ++ front', name) :: marks, rest⟩

section Prepend

variable (front : List Char) (cut : Cut)

theorem text_prepend (write : List Char → List Char) :
    (prepend front cut).text write = front ++ cut.text write := by
  obtain ⟨_ | ⟨⟨front', name⟩, marks⟩, rest⟩ := cut
  · rfl
  · simp [prepend]

theorem names_prepend : (prepend front cut).names = cut.names := by
  obtain ⟨_ | ⟨⟨front', name⟩, marks⟩, rest⟩ := cut <;> rfl

theorem placesFrom_prepend (start : Nat) :
    placesFrom start (prepend front cut).marks = placesFrom (start + byteLen front) cut.marks := by
  obtain ⟨_ | ⟨⟨front', name⟩, marks⟩, rest⟩ := cut
  · rfl
  · simp [prepend, placesFrom, Nat.add_assoc]

end Prepend

/-- With question marks for the names, what stands behind a question mark does not go on like a
name. -/
def EndsNames (cut : Cut) : Prop :=
  ∀ before front name after, cut.marks = before ++ (front, name) :: after →
    EndsName Char.isAlpha (text marked ⟨after, cut.rest⟩)

theorem EndsNames.prepend {cut : Cut} (hends : cut.EndsNames) (front : List Char) :
    (cut.prepend front).EndsNames := by
  obtain ⟨_ | ⟨⟨front', name'⟩, marks⟩, rest⟩ := cut
  · intro before first name after hmarks
    simp [Cut.prepend] at hmarks
  · intro before first name after hmarks
    cases before with
    | nil =>
      obtain ⟨_, rfl⟩ := List.cons.inj hmarks
      exact hends [] front' name' marks rfl
    | cons mark before =>
      obtain ⟨_, rfl⟩ := List.cons.inj hmarks
      exact hends ((front', name') :: before) first name after rfl

end Cut

/-- The text of pieces. -/
def Piece.writtenAll (pieces : List (Piece ColonName)) : List Char :=
  pieces.flatMap Piece.written

/-- The pieces that a text is read as: casts and placeholders with whole names, and the characters
between them, of which no colon has a name behind it. -/
inductive Pieced : List (Piece ColonName) → Prop where
  | nil : Pieced []
  | plain {c : Char} {pieces : List (Piece ColonName)} :
    (c = ':' → leadingName? (Piece.writtenAll pieces) = none) →
      Pieced pieces → Pieced (.plain c :: pieces)
  | found {word : ColonName} {pieces : List (Piece ColonName)} :
    IsName Char.isAlpha word.name → EndsName Char.isAlpha (Piece.writtenAll pieces) →
      Pieced pieces → Pieced (.found word.written word :: pieces)

theorem ColonName.pieced_piecesFrom (before : Option Char) (text : List Char) :
    Pieced (recogniser.piecesFrom 0 before text) := by
  have hread? : ∀ (b : Option Char) (t : List Char),
      recogniser.read? b t = (read? t).map fun word => (word.written, word) := fun _ _ => rfl
  have hwritten : ∀ (b : Option Char) (t : List Char),
      Piece.writtenAll (recogniser.piecesFrom 0 b t) = t := recogniser.flatMap_written_piecesFrom 0
  induction before, text using recogniser.scan_induction with
  | hnil before => exact .nil
  | hplain before c cs hnone ih =>
    rw [recogniser.piecesFrom_cons_of_none hnone]
    refine .plain ?_ ih
    rintro rfl
    rw [hread?, Option.map_eq_none_iff] at hnone
    rw [hwritten]
    exact leadingName?_eq_none_of_read? hnone
  | hfound before written rest word hsome ih =>
    rw [recogniser.piecesFrom_of_some hsome]
    rw [hread?] at hsome
    obtain ⟨found, hread, heq⟩ := Option.map_eq_some_iff.1 hsome
    obtain ⟨rfl, rfl⟩ := Prod.mk.inj heq
    obtain ⟨rest', happend, hname, hends⟩ := read?_eq_some_iff.1 hread
    obtain rfl := List.append_cancel_left happend
    refine .found hname ?_ ih
    rwa [hwritten]

namespace Cut

/-- The cut at the placeholders among pieces. -/
def ofPieces : List (Piece ColonName) → Cut
  | [] => ⟨[], []⟩
  | .found _ (.placeholder name) :: pieces =>
    ⟨([], name) :: (ofPieces pieces).marks, (ofPieces pieces).rest⟩
  | piece :: pieces => prepend piece.written (ofPieces pieces)

theorem ofPieces_plain (c : Char) (pieces : List (Piece ColonName)) :
    ofPieces (.plain c :: pieces) = prepend [c] (ofPieces pieces) := rfl

theorem ofPieces_cast (written name : List Char) (pieces : List (Piece ColonName)) :
    ofPieces (.found written (.cast name) :: pieces) = prepend written (ofPieces pieces) := rfl

theorem ofPieces_placeholder (written name : List Char) (pieces : List (Piece ColonName)) :
    ofPieces (.found written (.placeholder name) :: pieces) =
      ⟨([], name) :: (ofPieces pieces).marks, (ofPieces pieces).rest⟩ := rfl

end Cut

namespace Pieced

open Cut

variable {pieces : List (Piece ColonName)}

theorem text_named (hpieced : Pieced pieces) :
    (ofPieces pieces).text named = Piece.writtenAll pieces := by
  induction hpieced with
  | nil => rfl
  | plain _ _ ih =>
    rw [ofPieces_plain, text_prepend, ih]
    rfl
  | @found word _ _ _ _ ih =>
    cases word with
    | cast name =>
      rw [ofPieces_cast, text_prepend, ih]
      rfl
    | placeholder name =>
      rw [ofPieces_placeholder, text_cons, ih]
      rfl

theorem places (hpieced : Pieced pieces) (start : Nat) :
    ((locate start pieces).filterMap fun found =>
        found.value.placeholder?.map (⟨found.span, ·⟩)) =
      placesFrom start (ofPieces pieces).marks := by
  induction hpieced generalizing start with
  | nil => rfl
  | plain _ _ ih =>
    rw [ofPieces_plain, placesFrom_prepend, locate, ih]
    rfl
  | @found word _ _ _ _ ih =>
    cases word with
    | cast name =>
      rw [ofPieces_cast, placesFrom_prepend, locate, List.filterMap_cons, ih]
      rfl
    | placeholder name =>
      rw [ofPieces_placeholder, placesFrom, locate, List.filterMap_cons, ih]
      rfl

/-- With question marks for its placeholders a text begins as before, or with a question mark. -/
theorem head?_marked (hpieced : Pieced pieces) {c : Char}
    (hc : c ∈ ((ofPieces pieces).text marked).head?) :
    c ∈ (Piece.writtenAll pieces).head? ∨ c = '?' := by
  cases hpieced with
  | nil => cases hc
  | plain =>
    rw [ofPieces_plain, text_prepend] at hc
    exact .inl hc
  | @found word =>
    cases word with
    | cast name =>
      rw [ofPieces_cast, text_prepend] at hc
      exact .inl hc
    | placeholder name =>
      rw [ofPieces_placeholder, text_cons] at hc
      exact .inr (Option.some.inj hc).symm

theorem leadingName?_marked (hpieced : Pieced pieces)
    (hnone : leadingName? (Piece.writtenAll pieces) = none) :
    leadingName? ((ofPieces pieces).text marked) = none := by
  rw [leadingName?_eq_none_iff] at hnone ⊢
  intro c hc
  obtain hc | rfl := hpieced.head?_marked hc
  · exact hnone c hc
  · rfl

theorem endsName_marked (hpieced : Pieced pieces)
    (hends : EndsName Char.isAlpha (Piece.writtenAll pieces)) :
    EndsName Char.isAlpha ((ofPieces pieces).text marked) := by
  intro c hc
  obtain hc | rfl := hpieced.head?_marked hc
  · exact hends c hc
  · rfl

/-- No question mark runs into what stands behind it. -/
theorem endsNames (hpieced : Pieced pieces) : (ofPieces pieces).EndsNames := by
  induction hpieced with
  | nil =>
    intro before front name after hmarks
    simp [ofPieces] at hmarks
  | plain _ _ ih => exact ih.prepend _
  | @found word _ _ hends hrest ih =>
    cases word with
    | cast name => exact ih.prepend _
    | placeholder name =>
      intro before front name' after hmarks
      cases before with
      | nil =>
        obtain ⟨_, rfl⟩ := List.cons.inj hmarks
        exact hrest.endsName_marked hends
      | cons mark before =>
        obtain ⟨_, hmarks⟩ := List.cons.inj hmarks
        exact ih before front name' after hmarks

/-- With question marks for its placeholders a text has none left: every other colon has no name
behind it, or is one of a cast. -/
theorem occurrences_marked (hpieced : Pieced pieces) (start : Nat) (before : Option Char) :
    occurrences start before ((ofPieces pieces).text marked) [] = [] := by
  induction hpieced generalizing start before with
  | nil => rfl
  | @plain c pieces hcolon hrest ih =>
    rw [ofPieces_plain, text_prepend, List.singleton_append, occurrences, ih, List.append_nil,
      List.append_nil]
    suffices hnone : nameAt? before (c :: (ofPieces pieces).text marked) = none by
      rw [hnone]
      rfl
    by_cases hcase : c = ':'
    · rw [hcase, nameAt?_colon, hrest.leadingName?_marked (hcolon hcase), ite_self]
    · exact nameAt?_of_ne_colon hcase
  | @found word pieces hname _ _ ih =>
    cases word with
    | cast name =>
      have hcolon : ':' ∉ name := hname.not_mem rfl
      rw [ofPieces_cast, text_prepend, occurrences_append, ih, List.append_nil]
      simp [ColonName.written, occurrences, nameAt?_colon, ColonName.leadingName?_colon,
        occurrences_eq_nil_of_noColon hcolon]
    | placeholder name =>
      rw [ofPieces_placeholder, text_cons]
      exact ih _ _

end Pieced

/-- The cut that the scan makes. -/
def cutOf (text : List Char) : Cut :=
  .ofPieces (ColonName.recogniser.pieces text)

/-- The scan cuts a text at all of its placeholders and nowhere else. -/
theorem cutOf_of (text : List Char) : (cutOf text).Of text := by
  have hpieced := ColonName.pieced_piecesFrom none text
  refine ⟨?_, hpieced.places 0⟩
  rw [cutOf, Recogniser.pieces, hpieced.text_named]
  exact (ColonName.recogniser.flatMap_written_pieces text).symm

theorem endsNames_cutOf (text : List Char) : (cutOf text).EndsNames :=
  (ColonName.pieced_piecesFrom none text).endsNames

theorem placeholders_marked (text : List Char) :
    placeholders ((cutOf text).text Cut.marked) = [] := by
  rw [placeholders_eq_occurrences]
  exact (ColonName.pieced_piecesFrom none text).occurrences_marked 0 none

end SqlTemplate
