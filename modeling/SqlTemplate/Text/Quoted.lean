namespace SqlTemplate.Quoted

/-- Writes every quote twice. -/
def double : List Char → List Char
  | [] => []
  | c :: cs => if c = '\'' then '\'' :: '\'' :: double cs else c :: double cs

/-- Reads two quotes side by side as one, from left to right. A quote that stands alone is kept. -/
def undouble : List Char → List Char
  | [] => []
  | '\'' :: '\'' :: cs => '\'' :: undouble cs
  | c :: cs => c :: undouble cs

@[simp]
theorem undouble_double (text : List Char) : undouble (double text) = text := by
  induction text with
  | nil => rfl
  | cons c cs ih =>
    unfold double
    split
    · next hquote => simp [undouble, ih, hquote]
    · next hquote =>
      rw [undouble]
      · rw [ih]
      · intro _ heq
        exact absurd heq hquote

/-- The quoted form of a text as SQL writes it: single quotes around the text, and a quote inside it
written twice. -/
def quote (text : List Char) : List Char :=
  '\'' :: double text ++ ['\'']

/-- Reads a text that has quotes at its two ends. One quote alone has but one end. -/
def unquote? : List Char → Option (List Char)
  | '\'' :: rest => if rest.getLast? = some '\'' then some (undouble rest.dropLast) else none
  | _ => none

/-- Every text reads back from its quoted form. -/
theorem unquote?_quote (text : List Char) : unquote? (quote text) = some text := by
  simp [unquote?, quote]

end SqlTemplate.Quoted
