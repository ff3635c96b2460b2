import SqlTemplate.Keyword
import SqlTemplate.Text.Blank
import SqlTemplate.Text.Scan
import SqlTemplate.Text.Word

namespace SqlTemplate.Clause

/-- The part of a clause behind the column, as it is written: blanks, an operator, blanks, a colon
and a placeholder name. -/
structure Comparison where
  blanksBefore : List Char
  operator : List Char
  blanksAfter : List Char
  placeholder : List Char
deriving DecidableEq

namespace Comparison

def written (comparison : Comparison) : List Char :=
  comparison.blanksBefore ++ comparison.operator ++ comparison.blanksAfter ++
    ':' :: comparison.placeholder

/-- Reads a comparison from the beginning of a text. -/
def read? (text : List Char) : Option Comparison :=
  match Operator.take? (text.dropWhile isBlank) with
  | none => none
  | some (operator, rest) =>
    match rest.dropWhile isBlank with
    | ':' :: name =>
      (takeName? isFoldedLetter name).map fun (placeholder, _) =>
        ⟨text.takeWhile isBlank, operator, rest.takeWhile isBlank, placeholder⟩
    | _ => none

theorem exists_append_of_read? {text : List Char} {comparison : Comparison}
    (hread : read? text = some comparison) : ∃ rest, text = comparison.written ++ rest := by
  unfold read? at hread
  split at hread
  · simp at hread
  · next operator rest hoperator =>
    split at hread
    · next name hcolon =>
      obtain ⟨⟨placeholder, after⟩, hname, rfl⟩ := Option.map_eq_some_iff.1 hread
      obtain ⟨rfl, _⟩ := eq_append_of_takeName? hname
      refine ⟨after, ?_⟩
      calc text
        _ = text.takeWhile isBlank ++ text.dropWhile isBlank :=
          List.takeWhile_append_dropWhile.symm
        _ = text.takeWhile isBlank ++ (operator ++ rest) := by
          rw [Operator.eq_append_of_take? hoperator]
        _ = text.takeWhile isBlank ++
              (operator ++ (rest.takeWhile isBlank ++ rest.dropWhile isBlank)) := by
          rw [List.takeWhile_append_dropWhile]
        _ = _ := by simp [hcolon, written]
    · simp at hread

end Comparison

/-- The characters of a column path other than the dot. -/
def isColumnChar (c : Char) : Bool :=
  isNamePart isFoldedLetter c

/-- The longest dotted path at the beginning of a text after which `next` accepts what remains, with
what `next` makes of it. A path is a row of non-empty segments with dots between them; `inSegment`
says that the character before the text belongs to a segment, so that the path may end here. What
follows matters where a path runs into an operator, as in `WHERE paidIS :paid`. -/
def longestPath? {α : Type} (next : List Char → Option α) (inSegment : Bool) :
    List Char → Option (List Char × α)
  | [] => if inSegment then (next []).map (([], ·)) else none
  | c :: cs =>
    let longer? :=
      if isColumnChar c then longestPath? next true cs
      else if inSegment && c == '.' then longestPath? next false cs
      else none
    match longer? with
    | some (path, value) => some (c :: path, value)
    | none => if inSegment then (next (c :: cs)).map (([], ·)) else none

theorem exists_append_of_longestPath? {α : Type} {next : List Char → Option α} {inSegment : Bool}
    {text path : List Char} {value : α}
    (hpath : longestPath? next inSegment text = some (path, value)) :
    ∃ rest, text = path ++ rest ∧ next rest = some value := by
  have hhere : ∀ {rest : List Char},
      (if inSegment then (next rest).map (([], ·)) else none) = some (path, value) →
        path = [] ∧ next rest = some value := by
    intro rest hnext
    split at hnext
    · obtain ⟨found, hfound, heq⟩ := Option.map_eq_some_iff.1 hnext
      obtain ⟨rfl, rfl⟩ := Prod.mk.inj heq
      exact ⟨rfl, hfound⟩
    · simp at hnext
  induction text generalizing inSegment path with
  | nil =>
    obtain ⟨rfl, hnext⟩ := hhere hpath
    exact ⟨[], rfl, hnext⟩
  | cons c cs ih =>
    simp only [longestPath?] at hpath
    split at hpath
    · next tail found hlonger =>
      obtain ⟨rfl, rfl⟩ := Prod.mk.inj (Option.some.inj hpath)
      have htail : ∃ inside, longestPath? next inside cs = some (tail, found) := by
        split at hlonger
        · exact ⟨true, hlonger⟩
        · split at hlonger
          · exact ⟨false, hlonger⟩
          · simp at hlonger
      obtain ⟨inside, hinside⟩ := htail
      obtain ⟨rest, rfl, hnext⟩ := ih hinside (by
        intro rest hnext
        split at hnext
        · obtain ⟨_, hfound, heq⟩ := Option.map_eq_some_iff.1 hnext
          obtain ⟨rfl, rfl⟩ := Prod.mk.inj heq
          exact ⟨rfl, hfound⟩
        · simp at hnext)
      exact ⟨rest, rfl, hnext⟩
    · obtain ⟨rfl, hnext⟩ := hhere hpath
      exact ⟨c :: cs, rfl, hnext⟩

/-- A clause as it is written: a connector, one space, a dotted column path and a comparison. Every
part is kept as it stands in the text. -/
structure Reading where
  connector : Connector
  keyword : List Char
  column : List Char
  comparison : Comparison
deriving DecidableEq

namespace Reading

def written (reading : Reading) : List Char :=
  reading.keyword ++ ' ' :: reading.column ++ reading.comparison.written

/-- Reads a clause from the beginning of a text. -/
def read? (text : List Char) : Option Reading :=
  match Connector.take? text with
  | some (connector, keyword, ' ' :: rest) =>
    (longestPath? Comparison.read? false rest).map fun (column, comparison) =>
      ⟨connector, keyword, column, comparison⟩
  | _ => none

/-- The parts of a reading together are the text that was read. -/
theorem exists_append_of_read? {text : List Char} {reading : Reading}
    (hread : read? text = some reading) : ∃ rest, text = reading.written ++ rest := by
  unfold read? at hread
  split at hread
  · next connector keyword rest htake =>
    obtain ⟨⟨column, comparison⟩, hpath, rfl⟩ := Option.map_eq_some_iff.1 hread
    obtain ⟨tail, rfl, hcomparison⟩ := exists_append_of_longestPath? hpath
    obtain ⟨after, rfl⟩ := Comparison.exists_append_of_read? hcomparison
    exact ⟨after, by simp [(Connector.eq_append_of_take? htake).1, written]⟩
  · simp at hread

theorem written_ne_nil (reading : Reading) : reading.written ≠ [] := by
  simp [written]

end Reading

/-- Recognises a clause, which may begin at any place but the middle of a word. -/
def recogniser : Recogniser Reading where
  read? before text :=
    if before.any isWordChar then none
    else (Reading.read? text).map fun reading => (reading.written, reading)
  written_ne_nil := by
    intro before text written reading hread
    split at hread
    · simp at hread
    · obtain ⟨_, _, heq⟩ := Option.map_eq_some_iff.1 hread
      obtain ⟨rfl, rfl⟩ := Prod.mk.inj heq
      exact Reading.written_ne_nil _
  exists_append := by
    intro before text written reading hread
    split at hread
    · simp at hread
    · obtain ⟨_, hreading, heq⟩ := Option.map_eq_some_iff.1 hread
      obtain ⟨rfl, rfl⟩ := Prod.mk.inj heq
      exact Reading.exists_append_of_read? hreading

end SqlTemplate.Clause
