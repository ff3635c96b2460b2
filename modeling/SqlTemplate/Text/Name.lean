namespace SqlTemplate

/-- Two texts that differ at most in the case of ASCII letters. -/
def sameIgnoringCase (a b : List Char) : Bool :=
  a.map Char.toUpper == b.map Char.toUpper

/-- The capital that a character stands for where case is disregarded. -/
def foldedCapital (c : Char) : Char :=
  if c = '\u017F' then 'S' else if c = '\u212A' then 'K' else c.toUpper

/-- The characters that stand for an ASCII letter where case is disregarded. Two beyond ASCII are
among them: the long s stands for the letter S and the Kelvin sign for the letter K. -/
def isFoldedLetter (c : Char) : Bool :=
  c.isAlpha || c == '\u017F' || c == '\u212A'

/-- Takes a word, given in capitals, off the beginning of a text, whatever its case there: the word
as it is written and what follows it. -/
def takeWord? : List Char → List Char → Option (List Char × List Char)
  | [], text => some ([], text)
  | _ :: _, [] => none
  | k :: ks, c :: cs =>
    if foldedCapital c = k then
      (takeWord? ks cs).map fun (written, rest) => (c :: written, rest)
    else
      none

theorem eq_append_of_takeWord? {word text written rest : List Char}
    (htake : takeWord? word text = some (written, rest)) :
    text = written ++ rest ∧ written.map foldedCapital = word := by
  induction word generalizing text written with
  | nil =>
    obtain ⟨rfl, rfl⟩ : [] = written ∧ text = rest := by simpa [takeWord?] using htake
    exact ⟨rfl, rfl⟩
  | cons k ks ih =>
    cases text with
    | nil => simp [takeWord?] at htake
    | cons c cs =>
      unfold takeWord? at htake
      split at htake
      · next hfold =>
        obtain ⟨⟨written', rest'⟩, htail, heq⟩ := Option.map_eq_some_iff.1 htake
        obtain ⟨rfl, rfl⟩ : c :: written' = written ∧ rest' = rest := by simpa using heq
        obtain ⟨rfl, hword⟩ := ih htail
        exact ⟨rfl, by simp [hfold, hword]⟩
      · simp at htake

/-- The characters inside a name: letters, ASCII digits and the underscore. -/
def isNamePart (letter : Char → Bool) (c : Char) : Bool :=
  letter c || c.isDigit || c == '_'

/-- Takes the longest name off the beginning of a text. A name begins with a letter; which
characters are letters is for the caller to say. -/
def takeName? (letter : Char → Bool) : List Char → Option (List Char × List Char)
  | [] => none
  | c :: cs =>
    if letter c then
      some (c :: cs.takeWhile (isNamePart letter), cs.dropWhile (isNamePart letter))
    else
      none

theorem eq_append_of_takeName? {letter : Char → Bool} {text name rest : List Char}
    (htake : takeName? letter text = some (name, rest)) : text = name ++ rest ∧ name ≠ [] := by
  cases text with
  | nil => simp [takeName?] at htake
  | cons c cs =>
    simp only [takeName?] at htake
    split at htake
    · obtain ⟨rfl, rfl⟩ := Prod.mk.inj (Option.some.inj htake)
      exact ⟨by simp, by simp⟩
    · simp at htake

end SqlTemplate
