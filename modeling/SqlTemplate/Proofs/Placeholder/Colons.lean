import SqlTemplate.Proofs.Placeholder.Places

namespace SqlTemplate

/-- The placeholder that begins between two parts of a text. There is one where the second part
begins with a colon and a letter and the first does not end with a colon. Its name goes on as far as
letters, digits and underscores do. -/
def Placeholder.between? (front : List Char) : List Char → Option Placeholder
  | ':' :: behind =>
    if front.getLast? ≠ some ':' ∧ behind.head?.any Char.isAlpha then
      let name := behind.takeWhile (isNamePart Char.isAlpha)
      some ⟨⟨byteLen front, byteLen front + byteLen (':' :: name)⟩, String.ofList name⟩
    else
      none
  | _ => none

/-- The name that a text begins with goes on as far as characters of a name do. -/
theorem leadingName?_eq (text : List Char) :
    leadingName? text =
      if text.head?.any Char.isAlpha then some (text.takeWhile (isNamePart Char.isAlpha))
      else none := by
  cases text with
  | nil => rfl
  | cons c cs =>
    by_cases hletter : c.isAlpha
    · simp [leadingName?, takeName?, isNamePart, hletter]
    · simp [leadingName?, takeName?, hletter]

theorem Placeholder.between?_of_ne_colon (front : List Char) {c : Char} {cs : List Char}
    (hne : c ≠ ':') : Placeholder.between? front (c :: cs) = none := by
  unfold between?
  split
  · next heq => exact absurd (List.cons.inj heq).1 hne
  · rfl

theorem Placeholder.between?_eq (front rest : List Char) :
    Placeholder.between? front rest =
      (nameAt? front.getLast? rest).map (Placeholder.at (byteLen front)) := by
  cases rest with
  | nil => rfl
  | cons c behind =>
    by_cases hcolon : c = ':'
    · subst hcolon
      rw [between?, nameAt?_colon, leadingName?_eq]
      by_cases hfront : front.getLast? = some ':'
      · simp [hfront]
      · by_cases hletter : behind.head?.any Char.isAlpha
        · simp [hfront, hletter, Placeholder.at]
        · simp [hfront, hletter]
    · rw [between?_of_ne_colon front hcolon, nameAt?_of_ne_colon hcolon]
      rfl

/-- The placeholders that begin in a text, place by place. -/
theorem occurrences_eq_filterMap (front text : List Char) :
    occurrences (byteLen front) front.getLast? text [] =
      (List.range text.length).filterMap fun n =>
        Placeholder.between? (front ++ text.take n) (text.drop n) := by
  induction text generalizing front with
  | nil => rfl
  | cons c cs ih =>
    have hlater := ih (front ++ [c])
    rw [byteLen_append, byteLen_cons, byteLen_nil, Nat.add_zero, List.getLast?_concat] at hlater
    rw [occurrences, hlater, List.append_nil, ← Placeholder.between?_eq, List.length_cons,
      List.range_succ_eq_map, List.filterMap_cons, List.filterMap_map]
    simp only [List.take_zero, List.append_nil, List.drop_zero, Function.comp_def,
      Nat.succ_eq_add_one, List.take_succ_cons, List.drop_succ_cons, List.append_assoc,
      List.singleton_append]
    cases Placeholder.between? front (c :: cs) <;> rfl

/-- The placeholders of a text follow one another without overlap. They are those that begin at its
places, one place after the other: whether one begins at a place, and which, is settled there. -/
theorem placeholders_eq_between (text : List Char) :
    ((placeholders text).Pairwise fun p q => p.span.stop ≤ q.span.start) ∧
      placeholders text = (List.range text.length).filterMap fun n =>
        Placeholder.between? (text.take n) (text.drop n) := by
  constructor
  · refine (ColonName.recogniser.pairwise_scanFrom 0 none text).filterMap _ ?_
    intro m n hbefore p hp q hq
    obtain ⟨_, _, rfl⟩ := Option.map_eq_some_iff.1 hp
    obtain ⟨_, _, rfl⟩ := Option.map_eq_some_iff.1 hq
    exact hbefore
  · rw [placeholders_eq_occurrences]
    exact occurrences_eq_filterMap [] text

/-- No placeholder begins at a colon behind a colon, however many there are. -/
example : placeholderNames ":a::b:::c:d".toList = ["a", "d"] := by decide +kernel

end SqlTemplate
