import SqlTemplate.Text.Name
import SqlTemplate.Text.Word.Ranges

namespace SqlTemplate

/-- The characters that a word is made of: letters, marks, decimal digits, connecting punctuation
and the two join controls. A keyword stands free in a text only where the characters beside it are
none of these. -/
def isWordChar (c : Char) : Bool :=
  if c.toNat < 0x80 then
    c.isAlphanum || c == '_'
  else
    wordRanges.any fun (first, last) => first ≤ c.toNat && c.toNat ≤ last

theorem toNat_lt_of_isAlphanum {c : Char} (halpha : c.isAlphanum) : c.toNat < 0x80 := by
  have hunfold : c.isAlphanum = ((decide ('A'.val ≤ c.val ∧ c.val ≤ 'Z'.val) ||
      (decide ('a'.val ≤ c.val) && decide (c.val ≤ 'z'.val))) ||
      (decide ('0'.val ≤ c.val) && decide (c.val ≤ '9'.val))) := rfl
  rw [hunfold] at halpha
  simp only [Bool.or_eq_true, Bool.and_eq_true, decide_eq_true_eq,
    UInt32.le_iff_toNat_le] at halpha
  have hval : c.toNat = c.val.toNat := rfl
  rcases halpha with (⟨_, h⟩ | ⟨_, h⟩) | ⟨_, h⟩ <;> simp at h <;> omega

/-- Every character of a name is a word character. -/
theorem isWordChar_of_isNamePart {c : Char} (hpart : isNamePart isFoldedLetter c) :
    isWordChar c := by
  simp only [isNamePart, isFoldedLetter, Bool.or_eq_true, beq_iff_eq] at hpart
  rcases hpart with ((((halpha | rfl) | rfl) | hdigit) | rfl)
  · have hword : c.isAlphanum := by simp [Char.isAlphanum, halpha]
    simp [isWordChar, toNat_lt_of_isAlphanum hword, hword]
  · decide
  · decide +kernel
  · have hword : c.isAlphanum := by simp [Char.isAlphanum, hdigit]
    simp [isWordChar, toNat_lt_of_isAlphanum hword, hword]
  · decide

end SqlTemplate
