import SqlTemplate.Text.Span

namespace SqlTemplate

/-- Recognises something written at a place of a text. It sees the character before the place, if
there is one, and the text from there on. What it recognises is never empty and stands at the
beginning of that text. -/
structure Recogniser (α : Type) where
  read? : Option Char → List Char → Option (List Char × α)
  written_ne_nil : ∀ {before text written value},
    read? before text = some (written, value) → written ≠ []
  exists_append : ∀ {before text written value},
    read? before text = some (written, value) → ∃ rest, text = written ++ rest

/-- A text as a scan sees it: characters of no interest and finds. -/
inductive Piece (α : Type) where
  | plain (c : Char)
  | found (written : List Char) (value : α)

/-- The text that a piece covers. -/
def Piece.written {α : Type} : Piece α → List Char
  | .plain c => [c]
  | .found written _ => written

/-- What a scan found, and where. -/
structure Match (α : Type) where
  span : Span
  value : α

namespace Recogniser

variable {α : Type}

/-- The pieces of a text of which the first `skip` characters belong to a piece already cut. -/
def piecesFrom (r : Recogniser α) : Nat → Option Char → List Char → List (Piece α)
  | _, _, [] => []
  | skip + 1, _, c :: cs => r.piecesFrom skip (some c) cs
  | 0, before, c :: cs =>
    match r.read? before (c :: cs) with
    | none => .plain c :: r.piecesFrom 0 (some c) cs
    | some (written, value) =>
      .found written value :: r.piecesFrom (written.length - 1) (some c) cs

/-- Cuts a text into what the recogniser finds, leftmost first and without overlap, and the single
characters between the finds. -/
def pieces (r : Recogniser α) (text : List Char) : List (Piece α) :=
  r.piecesFrom 0 none text

theorem flatMap_written_piecesFrom (r : Recogniser α) (skip : Nat) (before : Option Char)
    (text : List Char) :
    (r.piecesFrom skip before text).flatMap Piece.written = text.drop skip := by
  induction text generalizing skip before with
  | nil => cases skip <;> rfl
  | cons c cs ih =>
    cases skip with
    | succ skip => simpa [piecesFrom] using ih skip (some c)
    | zero =>
      unfold piecesFrom
      split
      · simp [Piece.written, ih]
      · next written value hread =>
        obtain ⟨rest, happend⟩ := r.exists_append hread
        obtain ⟨d, ds, rfl⟩ := List.exists_cons_of_ne_nil (r.written_ne_nil hread)
        obtain ⟨rfl, rfl⟩ : c = d ∧ cs = ds ++ rest := by simpa using happend
        simp [Piece.written, ih]

/-- Cutting a text loses nothing of it. -/
theorem flatMap_written_pieces (r : Recogniser α) (text : List Char) :
    (r.pieces text).flatMap Piece.written = text := by
  simpa [pieces] using r.flatMap_written_piecesFrom 0 none text

end Recogniser

/-- The finds among pieces, the first of which begins at byte `start`. -/
def locate {α : Type} : Nat → List (Piece α) → List (Match α)
  | _, [] => []
  | start, .plain c :: rest => locate (start + c.utf8Size) rest
  | start, .found written value :: rest =>
    ⟨⟨start, start + byteLen written⟩, value⟩ :: locate (start + byteLen written) rest

/-- Everything that a recogniser finds in a text, leftmost first and without overlap. -/
def Recogniser.scan {α : Type} (r : Recogniser α) (text : List Char) : List (Match α) :=
  locate 0 (r.pieces text)

end SqlTemplate
