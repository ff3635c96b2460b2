import SqlTemplate.Text.Name
import SqlTemplate.Text.Scan

namespace SqlTemplate

/-- A name behind one colon or two. With two colons it is a type cast, which is no placeholder but
keeps its place in the text, so that its second colon begins nothing. -/
inductive ColonName where
  | placeholder (name : List Char)
  | cast (name : List Char)
deriving DecidableEq

namespace ColonName

def written : ColonName → List Char
  | placeholder name => ':' :: name
  | cast name => ':' :: ':' :: name

/-- Reads a cast or a placeholder from the beginning of a text. -/
def read? : List Char → Option ColonName
  | ':' :: ':' :: rest => (takeName? Char.isAlpha rest).map fun (name, _) => cast name
  | ':' :: rest => (takeName? Char.isAlpha rest).map fun (name, _) => placeholder name
  | _ => none

theorem written_ne_nil (word : ColonName) : word.written ≠ [] := by
  cases word <;> simp [written]

theorem exists_append_of_read? {text : List Char} {word : ColonName}
    (hread : read? text = some word) : ∃ rest, text = word.written ++ rest := by
  unfold read? at hread
  split at hread
  · obtain ⟨⟨name, rest⟩, hname, rfl⟩ := Option.map_eq_some_iff.1 hread
    obtain ⟨rfl, _⟩ := eq_append_of_takeName? hname
    exact ⟨rest, by simp [written]⟩
  · obtain ⟨⟨name, rest⟩, hname, rfl⟩ := Option.map_eq_some_iff.1 hread
    obtain ⟨rfl, _⟩ := eq_append_of_takeName? hname
    exact ⟨rest, by simp [written]⟩
  · simp at hread

/-- The name, if it is a placeholder's. -/
def placeholder? : ColonName → Option String
  | placeholder name => some (String.ofList name)
  | cast _ => none

/-- Recognises casts and placeholders, whatever stands in front of them. -/
def recogniser : Recogniser ColonName where
  read? _ text := (read? text).map fun word => (word.written, word)
  written_ne_nil := by
    intro before text written word hread
    obtain ⟨_, _, heq⟩ := Option.map_eq_some_iff.1 hread
    obtain ⟨rfl, rfl⟩ := Prod.mk.inj heq
    exact written_ne_nil _
  exists_append := by
    intro before text written word hread
    obtain ⟨_, hword, heq⟩ := Option.map_eq_some_iff.1 hread
    obtain ⟨rfl, rfl⟩ := Prod.mk.inj heq
    exact exists_append_of_read? hword

end ColonName

/-- An occurrence of a placeholder. Its span begins at the colon. -/
structure Placeholder where
  span : Span
  name : String
deriving DecidableEq

/-- The placeholders of a template from left to right. -/
def placeholders (text : List Char) : List Placeholder :=
  (ColonName.recogniser.scan text).filterMap fun found =>
    found.value.placeholder?.map (⟨found.span, ·⟩)

/-- The names of the placeholders of a template from left to right. -/
def placeholderNames (text : List Char) : List String :=
  (placeholders text).map Placeholder.name

end SqlTemplate
