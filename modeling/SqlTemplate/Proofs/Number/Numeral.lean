import Mathlib.Data.List.Induction
import Mathlib.Data.Nat.Digits.Defs
import SqlTemplate.Number.Decimal
import SqlTemplate.Proofs.Text.Words

namespace SqlTemplate

/-- A sign, which may be missing, and whether it is a minus sign. -/
inductive IsSign : Bool → List Char → Prop where
  | missing : IsSign false []
  | plus : IsSign false ['+']
  | minus : IsSign true ['-']

/-- The number that decimal digits stand for, each in its place. -/
def placeValue (digits : List Char) : Nat :=
  Nat.ofDigits 10 (digits.reverse.map fun c => c.toNat - '0'.toNat)

/-- A sign, if there is one, and at least one digit. Together they stand for `n`. -/
def IsInteger (text : List Char) (n : Int) : Prop :=
  ∃ negative sign digits, IsSign negative sign ∧ text = sign ++ digits ∧ digits ≠ [] ∧
    (∀ c ∈ digits, c.isDigit) ∧
    n = if negative then -(placeValue digits : Int) else placeValue digits

section Signs

variable {negative : Bool} {sign rest : List Char}

theorem exists_sign_of_takeSign {text : List Char} (htake : takeSign text = (negative, rest)) :
    ∃ sign, IsSign negative sign ∧ text = sign ++ rest := by
  unfold takeSign at htake
  split at htake
  · obtain ⟨rfl, rfl⟩ := Prod.mk.inj htake
    exact ⟨['-'], .minus, rfl⟩
  · obtain ⟨rfl, rfl⟩ := Prod.mk.inj htake
    exact ⟨['+'], .plus, rfl⟩
  · obtain ⟨rfl, rfl⟩ := Prod.mk.inj htake
    exact ⟨[], .missing, rfl⟩

/-- A sign is taken off a text in which no other sign follows. -/
theorem takeSign_append (hsign : IsSign negative sign)
    (hrest : ∀ c ∈ rest.head?, c ≠ '-' ∧ c ≠ '+') : takeSign (sign ++ rest) = (negative, rest) := by
  cases hsign with
  | plus => rfl
  | minus => rfl
  | missing =>
    rw [List.nil_append]
    unfold takeSign
    split
    · exact absurd rfl (hrest '-' rfl).1
    · exact absurd rfl (hrest '+' rfl).2
    · rfl

theorem ne_sign_of_isDigit {c : Char} (hdigit : c.isDigit) : c ≠ '-' ∧ c ≠ '+' := by
  constructor
  · rintro rfl
    cases hdigit
  · rintro rfl
    cases hdigit

end Signs

section Integers

theorem readDigits_eq_placeValue (digits : List Char) : readDigits digits = placeValue digits := by
  induction digits using List.reverseRecOn with
  | nil => rfl
  | append_singleton digits c ih =>
    have hread : readDigits (digits ++ [c]) = 10 * readDigits digits + (c.toNat - '0'.toNat) := by
      rw [readDigits, Nat.ofDigitChars_append]
      rfl
    have hplace : placeValue (digits ++ [c]) = (c.toNat - '0'.toNat) + 10 * placeValue digits := by
      rw [placeValue, List.reverse_concat, List.map_cons, Nat.ofDigits_cons]
      rfl
    rw [hread, hplace, ih, Nat.add_comm]

/-- An integer is a sign, if there is one, and decimal digits. -/
theorem readInt?_eq_some_iff {text : List Char} {n : Int} :
    readInt? text = some n ↔ IsInteger text n := by
  constructor
  · intro hread
    cases htake : takeSign text with
    | mk negative digits =>
      obtain ⟨sign, hsign, htext⟩ := exists_sign_of_takeSign htake
      simp only [readInt?, htake] at hread
      split at hread
      · next hdigits =>
        refine ⟨negative, sign, digits, hsign, htext, hdigits.1, List.all_eq_true.1 hdigits.2, ?_⟩
        rw [← readDigits_eq_placeValue]
        exact (Option.some.inj hread).symm
      · cases hread
  · rintro ⟨negative, sign, digits, hsign, rfl, hne, hdigits, rfl⟩
    have htake : takeSign (sign ++ digits) = (negative, digits) := by
      apply takeSign_append hsign
      intro c hc
      exact ne_sign_of_isDigit (hdigits c (List.mem_of_mem_head? hc))
    rw [readInt?, htake]
    simp only [hne, ne_eq, not_false_eq_true, List.all_eq_true.2 hdigits, and_self, if_true,
      readDigits_eq_placeValue]

theorem IsInteger.exists_digit {text : List Char} {n : Int} (hinteger : IsInteger text n) :
    ∃ c ∈ text, c.isDigit := by
  obtain ⟨_, sign, digits, _, rfl, hne, hdigits, _⟩ := hinteger
  obtain ⟨c, cs, rfl⟩ := List.exists_cons_of_ne_nil hne
  exact ⟨c, by simp, hdigits c List.mem_cons_self⟩

end Integers

namespace Decimal

/-- A point with digits behind it, which may be missing, and the digits. -/
inductive IsFraction : List Char → List Char → Prop where
  | missing : IsFraction [] []
  | point {digits : List Char} (hdigits : ∀ c ∈ digits, c.isDigit) :
      IsFraction ('.' :: digits) digits

/-- An exponent behind its mark, which may be missing, and the number that it stands for. -/
inductive IsExponent : List Char → Int → Prop where
  | missing : IsExponent [] 0
  | marked {mark : Char} {text : List Char} {n : Int} (hmark : mark = 'e' ∨ mark = 'E')
      (hinteger : IsInteger text n) : IsExponent (mark :: text) n

/-- A numeral without a sign, and the decimal that it stands for. At least one digit stands in front
of the exponent. -/
def IsNumeral (text : List Char) (d : Decimal) : Prop :=
  ∃ whole point fraction mark exponent, text = whole ++ point ++ mark ∧
    (∀ c ∈ whole, c.isDigit) ∧ IsFraction point fraction ∧ whole ++ fraction ≠ [] ∧
    IsExponent mark exponent ∧ d = ⟨placeValue (whole ++ fraction), exponent - fraction.length⟩

theorem readExponent?_eq_some_iff {text : List Char} {n : Int} :
    readExponent? text = some n ↔ IsExponent text n := by
  constructor
  · intro hread
    cases text with
    | nil =>
      obtain rfl : 0 = n := Option.some.inj hread
      exact .missing
    | cons mark text =>
      rw [readExponent?] at hread
      split at hread
      · next hmark => exact .marked hmark (readInt?_eq_some_iff.1 hread)
      · cases hread
  · intro hexponent
    cases hexponent with
    | missing => rfl
    | marked hmark hinteger => rw [readExponent?, if_pos hmark, readInt?_eq_some_iff.2 hinteger]

/-- No digit stands at the beginning of an exponent. -/
theorem IsExponent.head {text : List Char} {n : Int} (hexponent : IsExponent text n) :
    ∀ c ∈ text.head?, c.isDigit = false ∧ c ≠ '.' := by
  intro c hc
  cases hexponent with
  | missing => cases hc
  | marked hmark _ =>
    obtain rfl := Option.some.inj hc
    obtain rfl | rfl := hmark <;> exact ⟨rfl, by decide⟩

/-- The digits behind a point, if there is one, and what follows them. -/
def takeFraction : List Char → List Char × List Char
  | '.' :: rest => (rest.takeWhile Char.isDigit, rest.dropWhile Char.isDigit)
  | rest => ([], rest)

theorem exists_point_of_takeFraction (text : List Char) :
    ∃ point, IsFraction point (takeFraction text).1 ∧ text = point ++ (takeFraction text).2 := by
  unfold takeFraction
  split
  · next rest =>
    refine ⟨'.' :: rest.takeWhile Char.isDigit, .point fun c hc => List.mem_takeWhile_imp hc, ?_⟩
    rw [List.cons_append, List.takeWhile_append_dropWhile]
  · exact ⟨[], .missing, rfl⟩

theorem takeFraction_append {point fraction rest : List Char} (hpoint : IsFraction point fraction)
    (hrest : ∀ c ∈ rest.head?, c.isDigit = false ∧ c ≠ '.') :
    takeFraction (point ++ rest) = (fraction, rest) := by
  cases hpoint with
  | missing =>
    rw [List.nil_append]
    unfold takeFraction
    split
    · exact absurd rfl (hrest '.' rfl).2
    · rfl
  | point hdigits =>
    obtain ⟨htake, hdrop⟩ :=
      takeWhile_append_of_stops rest hdigits fun c hc => (hrest c hc).1
    rw [List.cons_append, takeFraction, htake, hdrop]

/-- A numeral is read part by part. -/
theorem read?_eq_parts {text whole behind fraction rest : List Char}
    (hwhole : text.takeWhile Char.isDigit = whole) (hbehind : text.dropWhile Char.isDigit = behind)
    (hfraction : takeFraction behind = (fraction, rest)) :
    read? text =
      if whole ++ fraction = [] then none
      else (readExponent? rest).map fun exponent =>
        ⟨readDigits (whole ++ fraction), exponent - fraction.length⟩ := by
  unfold takeFraction at hfraction
  simp only [read?, hwhole, hbehind]
  split at hfraction
  · obtain ⟨rfl, rfl⟩ := Prod.mk.inj hfraction
    simp only [List.isEmpty_iff]
  · obtain ⟨rfl, rfl⟩ := Prod.mk.inj hfraction
    simp only [List.isEmpty_iff]

/-- A numeral without a sign is digits, a point and more digits if there is a point, and an exponent
if there is one. -/
theorem read?_eq_some_iff {text : List Char} {d : Decimal} :
    read? text = some d ↔ IsNumeral text d := by
  constructor
  · intro hread
    obtain ⟨point, hpoint, hbehind⟩ :=
      exists_point_of_takeFraction (text.dropWhile Char.isDigit)
    cases hparts : takeFraction (text.dropWhile Char.isDigit) with
    | mk fraction rest =>
      rw [hparts] at hpoint hbehind
      rw [read?_eq_parts rfl rfl hparts] at hread
      split at hread
      · cases hread
      · next hne =>
        obtain ⟨exponent, hexponent, rfl⟩ := Option.map_eq_some_iff.1 hread
        refine ⟨_, point, fraction, rest, exponent, ?_, fun c hc => List.mem_takeWhile_imp hc,
          hpoint, hne, readExponent?_eq_some_iff.1 hexponent, by rw [readDigits_eq_placeValue]⟩
        rw [List.append_assoc, ← hbehind, List.takeWhile_append_dropWhile]
  · rintro ⟨whole, point, fraction, mark, exponent, rfl, hwhole, hpoint, hne, hmark, rfl⟩
    have hstop : ∀ c ∈ (point ++ mark).head?, c.isDigit = false := by
      intro c hc
      cases hpoint with
      | missing => exact (hmark.head c hc).1
      | point _ =>
        obtain rfl := Option.some.inj hc
        rfl
    obtain ⟨htake, hdrop⟩ := takeWhile_append_of_stops (point ++ mark) hwhole hstop
    rw [List.append_assoc, read?_eq_parts htake hdrop (takeFraction_append hpoint hmark.head),
      if_neg hne, readExponent?_eq_some_iff.2 hmark, readDigits_eq_placeValue]
    rfl

/-- A numeral begins with a digit or a point, and has a digit in it. -/
theorem IsNumeral.exists_digit {text : List Char} {d : Decimal} (hnumeral : IsNumeral text d) :
    (∃ c ∈ text.head?, c.isDigit ∨ c = '.') ∧ ∃ c ∈ text, c.isDigit := by
  obtain ⟨whole, point, fraction, mark, _, rfl, hwhole, hpoint, hne, _⟩ := hnumeral
  cases whole with
  | cons c cs =>
    have hdigit := hwhole c List.mem_cons_self
    exact ⟨⟨c, rfl, .inl hdigit⟩, c, by simp, hdigit⟩
  | nil =>
    cases hpoint with
    | missing => exact absurd rfl hne
    | point hdigits =>
      obtain ⟨c, cs, rfl⟩ := List.exists_cons_of_ne_nil hne
      exact ⟨⟨'.', rfl, .inr rfl⟩, c, by simp, hdigits c List.mem_cons_self⟩

end Decimal

end SqlTemplate
