import Mathlib.Data.List.TakeWhile
import SqlTemplate.Proofs.Text.Place
import SqlTemplate.Text.Blank
import SqlTemplate.Text.Word

namespace SqlTemplate

section Letters

theorem toNat_toUpper (c : Char) :
    c.toUpper.toNat = if 97 ≤ c.toNat ∧ c.toNat ≤ 122 then c.toNat - 32 else c.toNat := by
  have hlower : ('a'.val ≤ c.val ∧ c.val ≤ 'z'.val) ↔ 97 ≤ c.toNat ∧ c.toNat ≤ 122 := by
    simp only [UInt32.le_iff_toNat_le, Char.toNat_val]
    exact Iff.rfl
  unfold Char.toUpper
  by_cases hcase : 97 ≤ c.toNat ∧ c.toNat ≤ 122
  · rw [dif_pos (hlower.2 hcase), if_pos hcase, Char.toNat_mk, UInt32.toNat_add, Char.toNat_val]
    have hshift : ('A'.val - 'a'.val).toNat = 4294967264 := by decide
    rw [hshift]
    omega
  · rw [dif_neg fun h => hcase (hlower.1 h), if_neg hcase]

theorem isAlpha_iff_toNat {c : Char} :
    c.isAlpha ↔ (65 ≤ c.toNat ∧ c.toNat ≤ 90) ∨ (97 ≤ c.toNat ∧ c.toNat ≤ 122) := by
  have hunfold : c.isAlpha = (decide ('A'.val ≤ c.val ∧ c.val ≤ 'Z'.val) ||
      (decide ('a'.val ≤ c.val) && decide (c.val ≤ 'z'.val))) := rfl
  rw [hunfold]
  simp only [Bool.or_eq_true, Bool.and_eq_true, decide_eq_true_eq, UInt32.le_iff_toNat_le,
    Char.toNat_val]
  exact Iff.rfl

theorem isAlpha_toUpper (c : Char) : c.toUpper.isAlpha = c.isAlpha := by
  rw [Bool.eq_iff_iff, isAlpha_iff_toNat, isAlpha_iff_toNat, toNat_toUpper]
  split <;> omega

theorem toUpper_of_not_isAlpha {c : Char} (hletter : c.isAlpha = false) : c.toUpper = c := by
  apply Char.toNat_inj.1
  rw [toNat_toUpper, if_neg]
  intro hlower
  have halpha := isAlpha_iff_toNat.2 (.inr hlower)
  simp [hletter] at halpha

theorem isAlpha_foldedCapital (c : Char) : (foldedCapital c).isAlpha = isFoldedLetter c := by
  unfold foldedCapital isFoldedLetter
  split
  · next hlong => subst hlong; rfl
  · split
    · next hkelvin => subst hkelvin; rfl
    · next hlong hkelvin =>
      rw [isAlpha_toUpper, beq_eq_false_iff_ne.2 hlong, beq_eq_false_iff_ne.2 hkelvin]
      simp

theorem foldedCapital_of_not_letter {c : Char} (hletter : isFoldedLetter c = false) :
    foldedCapital c = c := by
  simp only [isFoldedLetter, Bool.or_eq_false_iff, beq_eq_false_iff_ne] at hletter
  obtain ⟨⟨halpha, hlong⟩, hkelvin⟩ := hletter
  rw [foldedCapital, if_neg hlong, if_neg hkelvin, toUpper_of_not_isAlpha halpha]

/-- The long s and the Kelvin sign apart, folding is writing in capitals. -/
theorem foldedCapital_eq_iff {c k : Char} (hs : k ≠ 'S') (hk : k ≠ 'K') :
    foldedCapital c = k ↔ c ≠ '\u017F' ∧ c ≠ '\u212A' ∧ c.toUpper = k := by
  unfold foldedCapital
  split
  · next hlong => simp [hlong, hs.symm]
  · split
    · next hkelvin => simp [hkelvin, hk.symm]
    · next hlong hkelvin => simp [hlong, hkelvin]

/-- What is spelled in ASCII letters, in any case, is spelled. -/
theorem map_foldedCapital_of_sameIgnoringCase {word letters : List Char}
    (hsame : sameIgnoringCase word letters) (hupper : letters.map Char.toUpper = letters)
    (hascii : ∀ k ∈ letters, k ≠ '\u017F' ∧ k ≠ '\u212A') :
    word.map foldedCapital = letters := by
  rw [sameIgnoringCase, beq_iff_eq, hupper] at hsame
  rw [← hsame]
  apply List.map_congr_left
  intro c hc
  obtain ⟨hlong, hkelvin⟩ := hascii c.toUpper (hsame ▸ List.mem_map_of_mem hc)
  unfold foldedCapital
  split
  · next heq => subst heq; exact absurd rfl hlong
  · split
    · next heq => subst heq; exact absurd rfl hkelvin
    · rfl

theorem isNamePart_of_isFoldedLetter {c : Char} (hletter : isFoldedLetter c) :
    isNamePart isFoldedLetter c := by
  simp [isNamePart, hletter]

theorem isFoldedLetter_of_isAlpha {c : Char} (hletter : c.isAlpha) : isFoldedLetter c := by
  simp [isFoldedLetter, hletter]

theorem isDigit_iff_toNat {c : Char} : c.isDigit ↔ 48 ≤ c.toNat ∧ c.toNat ≤ 57 := by
  simp only [Char.isDigit, ge_iff_le, Bool.and_eq_true, decide_eq_true_eq,
    UInt32.le_iff_toNat_le, Char.toNat_val]
  exact Iff.rfl

theorem isFoldedLetter_of_isDigit {c : Char} (hdigit : c.isDigit) : isFoldedLetter c = false := by
  have hcode := isDigit_iff_toNat.1 hdigit
  by_contra hletter
  simp only [isFoldedLetter, Bool.not_eq_false, Bool.or_eq_true, beq_iff_eq] at hletter
  obtain (halpha | rfl) | rfl := hletter
  · have hrange := isAlpha_iff_toNat.1 halpha
    omega
  · exact absurd hdigit (by decide)
  · exact absurd hdigit (by decide)

/-- What is no part of a name where case is disregarded is no part of one in ASCII. -/
theorem isNamePart_ascii {c : Char} (hpart : isNamePart isFoldedLetter c = false) :
    isNamePart Char.isAlpha c = false := by
  simp only [isNamePart, isFoldedLetter, Bool.or_eq_false_iff] at hpart ⊢
  obtain ⟨⟨⟨⟨halpha, _⟩, _⟩, hdigit⟩, hunderscore⟩ := hpart
  exact ⟨⟨halpha, hdigit⟩, hunderscore⟩

/-- The code points of the blank characters. -/
private def blankCodes : List Nat :=
  List.range' 0x09 5 ++ [0x20, 0x85, 0xA0, 0x1680] ++ List.range' 0x2000 11 ++
    [0x2028, 0x2029, 0x202F, 0x205F, 0x3000]

/-- No blank is part of a word. -/
theorem isWordChar_of_isBlank {c : Char} (hblank : isBlank c) : isWordChar c = false := by
  have hcode : c.toNat ∈ blankCodes := by
    simp only [isBlank, Bool.or_eq_true, Bool.and_eq_true, decide_eq_true_eq, beq_iff_eq] at hblank
    simp only [blankCodes, List.mem_append, List.mem_range'_1, List.mem_cons, List.not_mem_nil,
      or_false]
    omega
  have hcodes : ∀ n ∈ blankCodes, isWordChar (Char.ofNat n) = false := by decide +kernel
  simpa using hcodes _ hcode

theorem isBlank_of_isWordChar {c : Char} (hword : isWordChar c) : isBlank c = false := by
  by_contra hblank
  rw [isWordChar_of_isBlank (by simpa using hblank)] at hword
  cases hword

theorem isNamePart_of_not_isWordChar {c : Char} (hword : isWordChar c = false) :
    isNamePart isFoldedLetter c = false := by
  by_contra hpart
  rw [isWordChar_of_isNamePart (by simpa using hpart)] at hword
  cases hword

theorem isNamePart_of_isBlank {c : Char} (hblank : isBlank c) :
    isNamePart isFoldedLetter c = false :=
  isNamePart_of_not_isWordChar (isWordChar_of_isBlank hblank)

end Letters

section Taking

/-- A word is taken off a text just if the text begins with a spelling of it. -/
theorem takeWord?_eq_some_iff {word text written rest : List Char} :
    takeWord? word text = some (written, rest) ↔
      text = written ++ rest ∧ written.map foldedCapital = word := by
  constructor
  · exact eq_append_of_takeWord?
  · rintro ⟨rfl, rfl⟩
    induction written with
    | nil => rfl
    | cons c cs ih => simp [takeWord?, ih]

/-- Names: a letter, then letters, digits and underscores. -/
def IsName (letter : Char → Bool) : List Char → Prop
  | [] => False
  | c :: cs => letter c ∧ ∀ d ∈ cs, isNamePart letter d

/-- Whether a text, as far as it does not begin within a name, is read apart from a name in front
of it. -/
def EndsName (letter : Char → Bool) (text : List Char) : Prop :=
  ∀ c ∈ text.head?, isNamePart letter c = false

theorem EndsName.cons {letter : Char → Bool} {c : Char} (hstop : isNamePart letter c = false)
    (rest : List Char) : EndsName letter (c :: rest) := by
  intro d hd
  obtain rfl : c = d := by simpa using hd
  exact hstop

theorem EndsName.ascii {text : List Char} (hends : EndsName isFoldedLetter text) :
    EndsName Char.isAlpha text := fun c hc =>
  isNamePart_ascii (hends c hc)

theorem IsName.ne_nil {letter : Char → Bool} {name : List Char} (hname : IsName letter name) :
    name ≠ [] := by
  rintro rfl
  exact hname

theorem IsName.isNamePart {letter : Char → Bool} {name : List Char} (hname : IsName letter name) :
    ∀ c ∈ name, isNamePart letter c := by
  cases name with
  | nil => exact hname.elim
  | cons c cs =>
    intro d hd
    obtain rfl | hd := List.mem_cons.1 hd
    · simp [SqlTemplate.isNamePart, hname.1]
    · exact hname.2 d hd

theorem IsName.not_mem {letter : Char → Bool} {name : List Char} (hname : IsName letter name)
    {c : Char} (hc : SqlTemplate.isNamePart letter c = false) : c ∉ name := by
  intro hmem
  rw [hname.isNamePart c hmem] at hc
  cases hc

theorem IsName.not_isBlank {name : List Char} (hname : IsName Char.isAlpha name) :
    ∀ c ∈ name, isBlank c = false := by
  intro c hc
  by_contra hblank
  have hpart := isNamePart_of_isBlank (by simpa using hblank)
  exact hname.not_mem (isNamePart_ascii hpart) hc

theorem IsName.append {letter : Char → Bool} {name more : List Char} (hname : IsName letter name)
    (hmore : ∀ c ∈ more, SqlTemplate.isNamePart letter c) : IsName letter (name ++ more) := by
  cases name with
  | nil => exact hname.elim
  | cons c cs =>
    refine ⟨hname.1, ?_⟩
    intro d hd
    obtain hd | hd := List.mem_append.1 hd
    · exact hname.2 d hd
    · exact hmore d hd

/-- Behind all characters that could go on with a name, a name has ended. -/
theorem endsName_dropWhile (letter : Char → Bool) (text : List Char) :
    EndsName letter (text.dropWhile (isNamePart letter)) := by
  intro c hc
  have hdrop := List.head?_dropWhile_not (isNamePart letter) text
  rw [Option.mem_def.1 hc] at hdrop
  simpa using hdrop

theorem takeWhile_append_of_stops {p : Char → Bool} {cs : List Char} (rest : List Char)
    (hcs : ∀ c ∈ cs, p c) (hrest : ∀ c ∈ rest.head?, p c = false) :
    (cs ++ rest).takeWhile p = cs ∧ (cs ++ rest).dropWhile p = rest := by
  induction cs with
  | nil =>
    cases rest with
    | nil => simp
    | cons c cs => simp [hrest c rfl]
  | cons c cs ih =>
    have htail := ih fun d hd => hcs d (List.mem_cons_of_mem c hd)
    have hhead := hcs c List.mem_cons_self
    simp [hhead, htail]

/-- A name is taken off a text just if the text begins with the whole of it. -/
theorem takeName?_eq_some_iff {letter : Char → Bool} {text name rest : List Char} :
    takeName? letter text = some (name, rest) ↔
      text = name ++ rest ∧ IsName letter name ∧ EndsName letter rest := by
  constructor
  · intro htake
    cases text with
    | nil => simp [takeName?] at htake
    | cons c cs =>
      simp only [takeName?] at htake
      split at htake
      · next hletter =>
        obtain ⟨rfl, rfl⟩ := Prod.mk.inj (Option.some.inj htake)
        refine ⟨by simp, ⟨hletter, fun d hd => ?_⟩, endsName_dropWhile letter cs⟩
        exact List.mem_takeWhile_imp hd
      · simp at htake
  · rintro ⟨rfl, hname, hrest⟩
    cases name with
    | nil => exact hname.elim
    | cons c cs =>
      obtain ⟨htake, hdrop⟩ := takeWhile_append_of_stops rest hname.2 hrest
      simp [takeName?, hname.1, htake, hdrop]

/-- A text begins with one whole name at most. -/
theorem IsName.eq_of_append_eq {letter : Char → Bool} {name name' rest rest' : List Char}
    (hname : IsName letter name) (hname' : IsName letter name') (hends : EndsName letter rest)
    (hends' : EndsName letter rest') (htext : name ++ rest = name' ++ rest') : name = name' := by
  have htake : takeName? letter (name ++ rest) = some (name, rest) :=
    takeName?_eq_some_iff.2 ⟨rfl, hname, hends⟩
  rw [htext, takeName?_eq_some_iff.2 ⟨rfl, hname', hends'⟩] at htake
  exact (Prod.mk.inj (Option.some.inj htake)).1.symm

theorem takeName?_eq_none_iff {letter : Char → Bool} {text : List Char} :
    takeName? letter text = none ↔ ∀ c ∈ text.head?, letter c = false := by
  cases text with
  | nil => simp [takeName?]
  | cons c cs => by_cases hletter : letter c <;> simp [takeName?, hletter]

end Taking

end SqlTemplate
