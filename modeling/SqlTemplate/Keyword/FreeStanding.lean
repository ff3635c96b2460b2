import SqlTemplate.Keyword
import SqlTemplate.Text.Scan
import SqlTemplate.Text.Word

namespace SqlTemplate

namespace Connector

/-- Whether the character beside a place, if there is one, ends or begins a word there. -/
def isWordBeside (beside : Option Char) : Bool :=
  beside.any isWordChar

/-- Reads `AND` or `OR`, in any case, from the beginning of a text, if no word goes on behind it. -/
def readJoining? (text : List Char) : Option (List Char) :=
  match take? text with
  | none => none
  | some (connector, written, rest) =>
    if connector = where_ || isWordBeside rest.head? then none else some written

theorem exists_append_of_readJoining? {text written : List Char}
    (hread : readJoining? text = some written) :
    written ≠ [] ∧ ∃ rest, text = written ++ rest := by
  unfold readJoining? at hread
  split at hread
  · simp at hread
  · next connector word rest htake =>
    split at hread
    · simp at hread
    · obtain rfl := Option.some.inj hread
      obtain ⟨happend, hword⟩ := eq_append_of_take? htake
      refine ⟨?_, rest, happend⟩
      rintro rfl
      cases connector <;> simp [letters] at hword

/-- Recognises a free-standing `AND` or `OR`, one with no word character on either side. -/
def joiningRecogniser : Recogniser Unit where
  read? before text :=
    if isWordBeside before then none else (readJoining? text).map (·, ())
  written_ne_nil := by
    intro before text written _ hread
    split at hread
    · simp at hread
    · obtain ⟨_, hjoining, heq⟩ := Option.map_eq_some_iff.1 hread
      obtain ⟨rfl, _⟩ := Prod.mk.inj heq
      exact (exists_append_of_readJoining? hjoining).1
  exists_append := by
    intro before text written _ hread
    split at hread
    · simp at hread
    · obtain ⟨_, hjoining, heq⟩ := Option.map_eq_some_iff.1 hread
      obtain ⟨rfl, _⟩ := Prod.mk.inj heq
      exact (exists_append_of_readJoining? hjoining).2

end Connector

/-- The places of the free-standing `AND`s and `OR`s of a text, from left to right. -/
def joiningSpans (text : List Char) : List Span :=
  (Connector.joiningRecogniser.scan text).map Match.span

/-- The first free-standing `AND` or `OR` that overlaps none of the spans `taken`. It is the one
that takes the place of a `WHERE` that was removed. -/
def firstJoiningOutside? (taken : List Span) (text : List Char) : Option Span :=
  (joiningSpans text).find? fun span => !taken.any fun other => other.overlaps span

end SqlTemplate
