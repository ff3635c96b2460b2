import SqlTemplate.Proofs.Text.Scan
import SqlTemplate.Proofs.Text.Words

namespace SqlTemplate

/-- A question about a character to which the case of a letter makes no difference. -/
def IgnoresCase {α : Type} (f : Char → α) : Prop :=
  ∀ c, f c.toUpper = f c

section Characters

/-- What is the same of all letters does not depend on their case. -/
theorem ignoresCase_of_letters {α : Type} {f : Char → α} (value : α)
    (hletters : ∀ c : Char, c.isAlpha → f c = value) : IgnoresCase f := by
  intro c
  by_cases hletter : c.isAlpha
  · rw [hletters c hletter, hletters c.toUpper (by rwa [isAlpha_toUpper])]
  · rw [toUpper_of_not_isAlpha (by simpa using hletter)]

theorem toUpper_toUpper (c : Char) : c.toUpper.toUpper = c.toUpper := by
  apply Char.toNat_inj.1
  rw [toNat_toUpper c.toUpper, if_neg]
  rw [toNat_toUpper]
  split <;> omega

/-- No letter becomes a character other than a letter. -/
theorem toUpper_eq_iff {c d : Char} (hd : d.isAlpha = false) : c.toUpper = d ↔ c = d := by
  constructor
  · rintro rfl
    rw [isAlpha_toUpper] at hd
    exact (toUpper_of_not_isAlpha hd).symm
  · rintro rfl
    exact toUpper_of_not_isAlpha hd

theorem beq_ignoresCase {d : Char} (hd : d.isAlpha = false) : IgnoresCase (· == d) := by
  intro c
  rw [Bool.eq_iff_iff, beq_iff_eq, beq_iff_eq, toUpper_eq_iff hd]

theorem utf8Size_ignoresCase : IgnoresCase Char.utf8Size := by
  refine ignoresCase_of_letters 1 fun c hletter => ?_
  have hcode := isAlpha_iff_toNat.1 hletter
  have hascii : c.val ≤ 0x7f := by
    rw [UInt32.le_iff_toNat_le, Char.toNat_val]
    exact (show c.toNat ≤ 127 by omega)
  exact if_pos hascii

theorem isAlpha_ignoresCase : IgnoresCase Char.isAlpha := isAlpha_toUpper

theorem isDigit_ignoresCase : IgnoresCase Char.isDigit := by
  refine ignoresCase_of_letters false fun c hletter => ?_
  by_contra hdigit
  have hnoLetter := isFoldedLetter_of_isDigit (by simpa using hdigit)
  rw [isFoldedLetter_of_isAlpha hletter] at hnoLetter
  cases hnoLetter

theorem isFoldedLetter_ignoresCase : IgnoresCase isFoldedLetter :=
  ignoresCase_of_letters true fun _ => isFoldedLetter_of_isAlpha

theorem isNamePart_ignoresCase {letter : Char → Bool} (hletter : IgnoresCase letter) :
    IgnoresCase (isNamePart letter) := by
  intro c
  have hunderscore : (c.toUpper == '_') = (c == '_') := beq_ignoresCase rfl c
  rw [isNamePart, isNamePart, hletter, isDigit_ignoresCase, hunderscore]

theorem isWordChar_ignoresCase : IgnoresCase isWordChar :=
  ignoresCase_of_letters true fun _ hletter =>
    isWordChar_of_isNamePart (isNamePart_of_isFoldedLetter (isFoldedLetter_of_isAlpha hletter))

theorem isBlank_ignoresCase : IgnoresCase isBlank :=
  ignoresCase_of_letters false fun _ hletter => isBlank_of_isWordChar
    (isWordChar_of_isNamePart (isNamePart_of_isFoldedLetter (isFoldedLetter_of_isAlpha hletter)))

theorem foldedCapital_ignoresCase : IgnoresCase foldedCapital := by
  intro c
  by_cases hletter : c.isAlpha
  · have hfold : ∀ d : Char, d.isAlpha → foldedCapital d = d.toUpper := by
      intro d hd
      have hlong : d ≠ '\u017F' := by rintro rfl; exact absurd hd (by decide)
      have hkelvin : d ≠ '\u212A' := by rintro rfl; exact absurd hd (by decide)
      rw [foldedCapital, if_neg hlong, if_neg hkelvin]
    rw [hfold c hletter, hfold c.toUpper (by rwa [isAlpha_toUpper]), toUpper_toUpper]
  · rw [toUpper_of_not_isAlpha (by simpa using hletter)]

end Characters

/-- A text with its ASCII letters in capitals. Two texts that differ at most in the case of ASCII
letters are one text in capitals. -/
def capitals (text : List Char) : List Char :=
  text.map Char.toUpper

theorem sameIgnoringCase_iff {a b : List Char} :
    sameIgnoringCase a b ↔ capitals a = capitals b :=
  beq_iff_eq

section Capitals

@[simp]
theorem capitals_nil : capitals [] = [] := rfl

@[simp]
theorem capitals_cons (c : Char) (cs : List Char) :
    capitals (c :: cs) = c.toUpper :: capitals cs := rfl

@[simp]
theorem capitals_append (cs ds : List Char) : capitals (cs ++ ds) = capitals cs ++ capitals ds :=
  List.map_append

@[simp]
theorem capitals_capitals (text : List Char) : capitals (capitals text) = capitals text := by
  simp only [capitals, List.map_map, Function.comp_def, toUpper_toUpper]

theorem sameIgnoringCase_capitals (a b : List Char) :
    sameIgnoringCase (capitals a) b = sameIgnoringCase a b := by
  rw [Bool.eq_iff_iff, sameIgnoringCase_iff, sameIgnoringCase_iff, capitals_capitals]

/-- A character other than a letter stands at the same places of a text in capitals. -/
theorem exists_cons_of_capitals_eq_cons {d : Char} (hd : d.isAlpha = false)
    {text rest : List Char} (hcapitals : capitals text = d :: rest) :
    ∃ behind, text = d :: behind ∧ capitals behind = rest := by
  obtain ⟨c, behind, rfl, hhead, hbehind⟩ := List.map_eq_cons_iff.1 hcapitals
  obtain rfl := (toUpper_eq_iff hd).1 hhead
  exact ⟨behind, rfl, hbehind⟩

theorem head?_capitals (text : List Char) : (capitals text).head? = text.head?.map Char.toUpper :=
  List.head?_map

theorem lastFrom_capitals (before : Option Char) (text : List Char) :
    lastFrom (before.map Char.toUpper) (capitals text) = (lastFrom before text).map Char.toUpper := by
  induction text generalizing before with
  | nil => rfl
  | cons c cs ih => exact ih (some c)

theorem any_map_toUpper {p : Char → Bool} (hp : IgnoresCase p) (beside : Option Char) :
    (beside.map Char.toUpper).any p = beside.any p := by
  cases beside with
  | none => rfl
  | some c => exact hp c

theorem takeWhile_capitals {p : Char → Bool} (hp : IgnoresCase p) (text : List Char) :
    (capitals text).takeWhile p = capitals (text.takeWhile p) := by
  rw [capitals, List.takeWhile_map, show p ∘ Char.toUpper = p from funext hp, capitals]

theorem dropWhile_capitals {p : Char → Bool} (hp : IgnoresCase p) (text : List Char) :
    (capitals text).dropWhile p = capitals (text.dropWhile p) := by
  rw [capitals, List.dropWhile_map, show p ∘ Char.toUpper = p from funext hp, capitals]

@[simp]
theorem byteLen_capitals (text : List Char) : byteLen (capitals text) = byteLen text := by
  induction text with
  | nil => rfl
  | cons c cs ih => rw [capitals_cons, byteLen_cons, byteLen_cons, ih, utf8Size_ignoresCase]

theorem splitAtByte_capitals (n : Nat) (text : List Char) :
    splitAtByte n (capitals text) = (splitAtByte n text).map capitals capitals := by
  induction text generalizing n with
  | nil => rfl
  | cons c cs ih =>
    simp only [capitals_cons, splitAtByte, utf8Size_ignoresCase c, ih]
    split <;> rfl

theorem splitAtByte?_capitals (n : Nat) (text : List Char) :
    splitAtByte? n (capitals text) = (splitAtByte? n text).map (Prod.map capitals capitals) := by
  simp only [splitAtByte?, splitAtByte_capitals, Prod.map_fst, byteLen_capitals]
  split <;> rfl

theorem takeWord?_capitals (word text : List Char) :
    takeWord? word (capitals text) = (takeWord? word text).map (Prod.map capitals capitals) := by
  induction word generalizing text with
  | nil => rfl
  | cons k ks ih =>
    cases text with
    | nil => rfl
    | cons c cs =>
      simp only [capitals_cons, takeWord?, foldedCapital_ignoresCase c, ih]
      split
      · simp only [Option.map_map]
        rfl
      · rfl

theorem takeName?_capitals {letter : Char → Bool} (hletter : IgnoresCase letter)
    (text : List Char) :
    takeName? letter (capitals text) =
      (takeName? letter text).map (Prod.map capitals capitals) := by
  cases text with
  | nil => rfl
  | cons c cs =>
    have hpart := isNamePart_ignoresCase hletter
    simp only [capitals_cons, takeName?, hletter c, takeWhile_capitals hpart,
      dropWhile_capitals hpart]
    split <;> rfl

end Capitals

/-- The match at the same place, with its value changed. -/
def Match.map {α β : Type} (f : α → β) (m : Match α) : Match β :=
  ⟨m.span, f m.value⟩

namespace Recogniser

variable {α : Type} {r : Recogniser α} {inCapitals : α → α}

/-- A recogniser to which case makes no difference: from a text in capitals it reads what it reads
from the text, in capitals. -/
def IgnoresCase (r : Recogniser α) (inCapitals : α → α) : Prop :=
  ∀ before text, r.read? (before.map Char.toUpper) (capitals text) =
    (r.read? before text).map (Prod.map capitals inCapitals)

theorem scanFrom_capitals (hread : r.IgnoresCase inCapitals) (start : Nat) (before : Option Char)
    (text : List Char) :
    r.scanFrom start (before.map Char.toUpper) (capitals text) =
      (r.scanFrom start before text).map (Match.map inCapitals) := by
  induction before, text using r.scan_induction generalizing start with
  | hnil before => rfl
  | hplain before c cs hnone ih =>
    have hcapital : r.read? (before.map Char.toUpper) (c.toUpper :: capitals cs) = none := by
      rw [← capitals_cons, hread, hnone]
      rfl
    rw [capitals_cons, r.scanFrom_cons_of_none hcapital, r.scanFrom_cons_of_none hnone,
      utf8Size_ignoresCase, ← ih]
    rfl
  | hfound before written rest value hsome ih =>
    have hcapital : r.read? (before.map Char.toUpper) (capitals written ++ capitals rest) =
        some (capitals written, inCapitals value) := by
      rw [← capitals_append, hread, hsome]
      rfl
    rw [capitals_append, r.scanFrom_of_some hcapital, r.scanFrom_of_some hsome,
      lastFrom_capitals, byteLen_capitals, ih]
    rfl

/-- A recogniser to which case makes no difference finds the same at the same places of a text in
capitals. A capital takes as many bytes as its letter, so no place moves. -/
theorem scan_capitals (hread : r.IgnoresCase inCapitals) (text : List Char) :
    r.scan (capitals text) = (r.scan text).map (Match.map inCapitals) :=
  scanFrom_capitals hread 0 none text

end Recogniser

end SqlTemplate
