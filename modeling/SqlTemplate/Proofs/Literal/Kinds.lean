import SqlTemplate.Literal
import SqlTemplate.Proofs.Number.Numeral
import SqlTemplate.Proofs.Text.Trim

namespace SqlTemplate

section Words

variable {word letters letters' : List Char}

/-- What is the same as a keyword, but for the case of letters, has letters only, and has some. -/
theorem isAlpha_of_sameIgnoringCase (hsame : sameIgnoringCase word letters)
    (hne : letters ≠ []) (hletters : ∀ k ∈ letters, k.isAlpha) :
    word ≠ [] ∧ ∀ c ∈ word, c.isAlpha := by
  rw [sameIgnoringCase, beq_iff_eq] at hsame
  constructor
  · rintro rfl
    exact hne (List.map_eq_nil_iff.1 hsame.symm)
  · intro c hc
    obtain ⟨k, hk, hupper⟩ := List.mem_map.1 (hsame ▸ List.mem_map_of_mem hc)
    rw [← isAlpha_toUpper, ← hupper, isAlpha_toUpper]
    exact hletters k hk

/-- A word spells one keyword only. -/
theorem sameIgnoringCase_of_both (hsame : sameIgnoringCase word letters)
    (hsame' : sameIgnoringCase word letters') : sameIgnoringCase letters letters' := by
  rw [sameIgnoringCase, beq_iff_eq] at hsame hsame' ⊢
  exact hsame.symm.trans hsame'

/-- What does not begin with a letter is no keyword. -/
theorem sameIgnoringCase_eq_false_of_head {c k : Char} (hc : c.isAlpha = false) (hk : k.isAlpha)
    (cs ks : List Char) : sameIgnoringCase (c :: cs) (k :: ks) = false := by
  rw [sameIgnoringCase, beq_eq_false_iff_ne]
  intro hsame
  have hhead : c.toUpper = k.toUpper := (List.cons.inj hsame).1
  have hletter : c.toUpper.isAlpha = k.toUpper.isAlpha := congrArg Char.isAlpha hhead
  rw [isAlpha_toUpper, isAlpha_toUpper, hc, hk] at hletter
  cases hletter

theorem isAlpha_of_isDigit {c : Char} (hdigit : c.isDigit) : c.isAlpha = false := by
  have hletter := isFoldedLetter_of_isDigit hdigit
  by_contra halpha
  rw [isFoldedLetter_of_isAlpha (by simpa using halpha)] at hletter
  cases hletter

end Words

namespace Quoted

theorem unquote?_of_ne {c : Char} (hne : c ≠ '\'') (cs : List Char) :
    unquote? (c :: cs) = none := by
  unfold unquote?
  split
  · next heq => exact absurd (List.cons.inj heq).1 hne
  · rfl

theorem unquote?_eq_some_iff {text inner : List Char} :
    unquote? text = some inner ↔ ∃ body, text = '\'' :: body ++ ['\''] ∧ inner = undouble body := by
  constructor
  · intro hunquote
    unfold unquote? at hunquote
    split at hunquote
    · next rest =>
      split at hunquote
      · next hlast =>
        obtain ⟨body, rfl⟩ := List.getLast?_eq_some_iff.1 hlast
        refine ⟨body, rfl, ?_⟩
        rw [List.dropLast_concat] at hunquote
        exact (Option.some.inj hunquote).symm
      · cases hunquote
    · cases hunquote
  · rintro ⟨body, rfl, rfl⟩
    simp [unquote?]

end Quoted

theorem fitsInt64_toInt (n : Int64) : fitsInt64 n.toInt := by
  rw [fitsInt64, Bool.and_eq_true, decide_eq_true_eq, decide_eq_true_eq]
  exact ⟨n.minValue_le_toInt, n.toInt_le⟩

theorem toInt_ofInt_of_fitsInt64 {n : Int} (hfits : fitsInt64 n) : (Int64.ofInt n).toInt = n := by
  rw [fitsInt64, Bool.and_eq_true, decide_eq_true_eq, decide_eq_true_eq] at hfits
  have hmin : Int64.minValue.toInt = -2 ^ 63 := rfl
  have hmax : Int64.maxValue.toInt = 2 ^ 63 - 1 := rfl
  exact Int64.toInt_ofInt_of_le (by omega) (by omega)

namespace Literal

section Numbers

variable {text : List Char} {value : Value}

theorem integer?_eq_some_iff :
    integer? text = some value ↔ ∃ n : Int64, value = .int n ∧ IsInteger text n.toInt := by
  unfold integer?
  rw [Option.bind_eq_bind, Option.bind_eq_some_iff]
  constructor
  · rintro ⟨n, hread, hvalue⟩
    split at hvalue
    · next hfits =>
      refine ⟨Int64.ofInt n, (Option.some.inj hvalue).symm, ?_⟩
      rw [toInt_ofInt_of_fitsInt64 hfits]
      exact readInt?_eq_some_iff.1 hread
    · cases hvalue
  · rintro ⟨n, rfl, hinteger⟩
    refine ⟨n.toInt, readInt?_eq_some_iff.2 hinteger, ?_⟩
    rw [if_pos (fitsInt64_toInt n), Int64.ofInt_toInt]

/-- The name of an infinite number, in any case. -/
def NamesInfinity (name : List Char) : Prop :=
  sameIgnoringCase name ['i', 'n', 'f'] ∨
    sameIgnoringCase name ['i', 'n', 'f', 'i', 'n', 'i', 't', 'y']

/-- The name of what is not a number, in any case. -/
def NamesNaN (name : List Char) : Prop :=
  sameIgnoringCase name ['n', 'a', 'n']

instance (name : List Char) : Decidable (NamesInfinity name) :=
  inferInstanceAs (Decidable (_ ∨ _))

instance (name : List Char) : Decidable (NamesNaN name) :=
  inferInstanceAs (Decidable (_ = true))

/-- A minus sign and the name of a number that is not finite. -/
def NamesNonFinite (text : List Char) : Prop :=
  ∃ name, text = '-' :: name ∧ (NamesInfinity name ∨ NamesNaN name)

/-- Names are all letters. -/
theorem isAlpha_of_names {name : List Char} (hname : NamesInfinity name ∨ NamesNaN name) :
    name ≠ [] ∧ ∀ c ∈ name, c.isAlpha := by
  obtain (hinf | hinfinity) | hnan := hname
  · exact isAlpha_of_sameIgnoringCase hinf (by simp) (List.all_eq_true.1 rfl)
  · exact isAlpha_of_sameIgnoringCase hinfinity (by simp) (List.all_eq_true.1 rfl)
  · exact isAlpha_of_sameIgnoringCase hnan (by simp) (List.all_eq_true.1 rfl)

theorem nonFinite?_eq {negative : Bool} {name : List Char}
    (htake : takeSign text = (negative, name)) :
    nonFinite? text =
      if NamesInfinity name then some (.infinity negative)
      else if NamesNaN name then some .nan
      else none := by
  rw [nonFinite?, htake]
  simp only [Bool.or_eq_true]
  rfl

theorem float?_eq {negative : Bool} {name : List Char} (htake : takeSign text = (negative, name)) :
    float? text =
      if beginsNumber text then
        if NamesInfinity name then some (.float (.infinity negative))
        else if NamesNaN name then some (.float .nan)
        else (Decimal.read? name).map fun d => .float (d.toBinary64 negative)
      else none := by
  rw [float?, nonFinite?_eq htake, htake]
  by_cases hinfinity : NamesInfinity name
  · simp only [if_pos hinfinity]
  · by_cases hnan : NamesNaN name
    · simp only [if_neg hinfinity, if_pos hnan]
    · simp only [if_neg hinfinity, if_neg hnan]

theorem not_namesInfinity_of_namesNaN {name : List Char} (hnan : NamesNaN name) :
    ¬ NamesInfinity name := by
  rintro (hinf | hinfinity)
  · cases sameIgnoringCase_of_both hnan hinf
  · cases sameIgnoringCase_of_both hnan hinfinity

/-- A number behind a minus sign or none, and what it is read as: the number nearest to it, or one
that is not finite. -/
inductive IsFloat : List Char → Binary64 → Prop where
  | decimal {negative : Bool} {sign numeral : List Char} {d : Decimal}
      (hsign : IsSign negative sign) (hplus : sign ≠ ['+']) (hnumeral : d.IsNumeral numeral) :
      IsFloat (sign ++ numeral) (d.toBinary64 negative)
  | infinity {name : List Char} (hname : NamesInfinity name) :
      IsFloat ('-' :: name) (.infinity true)
  | nan {name : List Char} (hname : NamesNaN name) : IsFloat ('-' :: name) .nan

theorem NamesNonFinite.exists_isFloat (hname : NamesNonFinite text) : ∃ x, IsFloat text x := by
  obtain ⟨name, rfl, hinfinity | hnan⟩ := hname
  · exact ⟨_, .infinity hinfinity⟩
  · exact ⟨_, .nan hnan⟩

/-- A number that is not named has a digit in it. -/
theorem IsFloat.exists_digit {x : Binary64} (hfloat : IsFloat text x)
    (hname : ¬ NamesNonFinite text) : ∃ c ∈ text, c.isDigit := by
  cases hfloat with
  | decimal _ _ hnumeral =>
    obtain ⟨c, hc, hdigit⟩ := hnumeral.exists_digit.2
    exact ⟨c, List.mem_append_right _ hc, hdigit⟩
  | infinity hinfinity => exact absurd ⟨_, rfl, .inl hinfinity⟩ hname
  | nan hnan => exact absurd ⟨_, rfl, .inr hnan⟩ hname

theorem beginsNumber_iff :
    beginsNumber text ↔ ∃ c ∈ text.head?, c.isDigit ∨ c = '-' ∨ c = '.' := by
  cases text with
  | nil => simp [beginsNumber]
  | cons c cs => simp [beginsNumber, or_assoc]

theorem NamesNonFinite.isDigit_eq_false (hname : NamesNonFinite text) :
    ∀ c ∈ text, c.isDigit = false := by
  obtain ⟨name, rfl, hname⟩ := hname
  intro c hc
  obtain rfl | hc := List.mem_cons.1 hc
  · rfl
  · have hletter := (isAlpha_of_names hname).2 c hc
    by_contra hdigit
    rw [isAlpha_of_isDigit (by simpa using hdigit)] at hletter
    cases hletter

/-- What may begin a number is no letter. -/
theorem isAlpha_of_beginsNumber (hbegins : beginsNumber text) :
    ∀ c ∈ text.head?, c.isAlpha = false := by
  obtain ⟨c, hc, hkind⟩ := beginsNumber_iff.1 hbegins
  intro d hd
  obtain rfl := Option.mem_unique hd hc
  obtain hdigit | rfl | rfl := hkind
  · exact isAlpha_of_isDigit hdigit
  · rfl
  · rfl

theorem not_names_of_head {name : List Char} (hhead : ∀ c ∈ name.head?, c.isAlpha = false) :
    ¬ (NamesInfinity name ∨ NamesNaN name) := by
  intro hname
  obtain ⟨hne, hletters⟩ := isAlpha_of_names hname
  have hletter := hletters _ (List.head_mem hne)
  rw [hhead _ (List.head?_eq_some_head hne)] at hletter
  cases hletter

/-- Where a number may begin, a name stands behind a minus sign. -/
theorem append_eq_minus_of_names {negative : Bool} {sign name : List Char}
    (hsign : IsSign negative sign) (hbegins : beginsNumber (sign ++ name))
    (hname : NamesInfinity name ∨ NamesNaN name) :
    sign ++ name = '-' :: name ∧ negative = true := by
  cases hsign with
  | missing => exact absurd hname (not_names_of_head (isAlpha_of_beginsNumber hbegins))
  | plus => cases hbegins
  | minus => exact ⟨rfl, rfl⟩

/-- A numeral is told apart from its sign and from the names, and begins as a number may. -/
theorem takeSign_of_isNumeral {negative : Bool} {sign numeral : List Char} {d : Decimal}
    (hsign : IsSign negative sign) (hnumeral : d.IsNumeral numeral) :
    takeSign (sign ++ numeral) = (negative, numeral) ∧
      ¬ (NamesInfinity numeral ∨ NamesNaN numeral) ∧
      (sign ≠ ['+'] → beginsNumber (sign ++ numeral)) := by
  obtain ⟨⟨c, hc, hkind⟩, _⟩ := hnumeral.exists_digit
  have hhead : ∀ e ∈ numeral.head?, e = c := fun e he => Option.mem_unique he hc
  refine ⟨takeSign_append hsign ?_, not_names_of_head ?_, fun hplus => beginsNumber_iff.2 ?_⟩
  · intro e he
    obtain rfl := hhead e he
    obtain hdigit | rfl := hkind
    · exact ne_sign_of_isDigit hdigit
    · decide
  · intro e he
    obtain rfl := hhead e he
    obtain hdigit | rfl := hkind
    · exact isAlpha_of_isDigit hdigit
    · rfl
  · cases hsign with
    | missing => exact ⟨c, hc, hkind.imp_right .inr⟩
    | plus => exact absurd rfl hplus
    | minus => exact ⟨'-', rfl, .inr (.inl rfl)⟩

theorem isFloat_of_float? (hread : float? text = some value) :
    ∃ x, value = .float x ∧ IsFloat text x := by
  cases htake : takeSign text with
  | mk negative name =>
    obtain ⟨sign, hsign, rfl⟩ := exists_sign_of_takeSign htake
    rw [float?_eq htake] at hread
    split at hread
    · next hbegins =>
      split at hread
      · next hname =>
        obtain ⟨hminus, hnegative⟩ := append_eq_minus_of_names hsign hbegins (.inl hname)
        rw [hminus]
        rw [hnegative] at hread
        exact ⟨_, (Option.some.inj hread).symm, .infinity hname⟩
      · split at hread
        · next hname =>
          obtain ⟨hminus, _⟩ := append_eq_minus_of_names hsign hbegins (.inr hname)
          rw [hminus]
          exact ⟨_, (Option.some.inj hread).symm, .nan hname⟩
        · obtain ⟨d, hd, rfl⟩ := Option.map_eq_some_iff.1 hread
          have hplus : sign ≠ ['+'] := by
            rintro rfl
            cases hbegins
          exact ⟨_, rfl, .decimal hsign hplus (Decimal.read?_eq_some_iff.1 hd)⟩
    · cases hread

theorem IsFloat.float?_eq {x : Binary64} (hfloat : IsFloat text x) :
    float? text = some (.float x) := by
  cases hfloat with
  | decimal hsign hplus hnumeral =>
    obtain ⟨htake, hname, hbegins⟩ := takeSign_of_isNumeral hsign hnumeral
    rw [not_or] at hname
    rw [Literal.float?_eq htake, if_pos (hbegins hplus), if_neg hname.1, if_neg hname.2,
      Decimal.read?_eq_some_iff.2 hnumeral]
    rfl
  | @infinity name hname =>
    have htake : takeSign ('-' :: name) = (true, name) := rfl
    have hbegins : beginsNumber ('-' :: name) := rfl
    rw [Literal.float?_eq htake, if_pos hbegins, if_pos hname]
  | @nan name hname =>
    have htake : takeSign ('-' :: name) = (true, name) := rfl
    have hbegins : beginsNumber ('-' :: name) := rfl
    rw [Literal.float?_eq htake, if_pos hbegins, if_neg (not_namesInfinity_of_namesNaN hname),
      if_pos hname]

end Numbers

/-- The keyword for a truth value. -/
def keywordOf : Bool → List Char
  | true => ['t', 'r', 'u', 'e']
  | false => ['f', 'a', 'l', 's', 'e']

theorem keywordOf_ne_nil (b : Bool) : keywordOf b ≠ [] := by
  cases b with
  | true => exact List.cons_ne_nil _ _
  | false => exact List.cons_ne_nil _ _

theorem isAlpha_of_mem_keywordOf (b : Bool) : ∀ c ∈ keywordOf b, c.isAlpha := by
  cases b with
  | true => exact List.all_eq_true.1 rfl
  | false => exact List.all_eq_true.1 rfl

/-- A number in decimal notation, behind a sign if there is one. -/
def IsDecimal (text : List Char) : Prop :=
  ∃ negative sign numeral d, IsSign negative sign ∧ Decimal.IsNumeral numeral d ∧
    text = sign ++ numeral

/-- What a text without blanks around it stands for, if it is more than text. -/
inductive Reads : List Char → Value → Prop where
  | null {text : List Char} (hnull : sameIgnoringCase text ['n', 'u', 'l', 'l']) : Reads text .null
  | quoted (body : List Char) :
      Reads ('\'' :: body ++ ['\'']) (.text (String.ofList (Quoted.undouble body)))
  | bool {text : List Char} {b : Bool} (hbool : sameIgnoringCase text (keywordOf b)) :
      Reads text (.bool b)
  | int {text : List Char} {n : Int64} (hinteger : IsInteger text n.toInt) : Reads text (.int n)
  | float {text : List Char} {x : Binary64} (hfloat : IsFloat text x)
      (hother : ∀ n : Int64, ¬ IsInteger text n.toInt) : Reads text (.float x)

section Trimmed

variable {text : List Char} {value : Value}

/-- A number is told apart from keywords and from quoted text by its first character. -/
theorem trimmed?_of_head {c : Char} {cs : List Char} (hletter : c.isAlpha = false)
    (hquote : c ≠ '\'') : trimmed? (c :: cs) = (integer? (c :: cs)).or (float? (c :: cs)) := by
  rw [trimmed?, sameIgnoringCase_eq_false_of_head hletter rfl, Quoted.unquote?_of_ne hquote,
    sameIgnoringCase_eq_false_of_head hletter rfl, sameIgnoringCase_eq_false_of_head hletter rfl]
  cases integer? (c :: cs) <;> rfl

theorem head_of_isInteger {n : Int} (hinteger : IsInteger text n) :
    ∃ c cs, text = c :: cs ∧ c.isAlpha = false ∧ c ≠ '\'' := by
  obtain ⟨_, sign, digits, hsign, rfl, hne, hdigits, _⟩ := hinteger
  cases hsign with
  | plus => exact ⟨'+', digits, rfl, rfl, by decide⟩
  | minus => exact ⟨'-', digits, rfl, rfl, by decide⟩
  | missing =>
    obtain ⟨c, cs, rfl⟩ := List.exists_cons_of_ne_nil hne
    have hdigit := hdigits c List.mem_cons_self
    refine ⟨c, cs, rfl, isAlpha_of_isDigit hdigit, ?_⟩
    rintro rfl
    cases hdigit

theorem IsFloat.head {x : Binary64} (hfloat : IsFloat text x) :
    ∃ c cs, text = c :: cs ∧ c.isAlpha = false ∧ c ≠ '\'' := by
  have hbegins : beginsNumber text := by
    cases hfloat with
    | decimal hsign hplus hnumeral => exact (takeSign_of_isNumeral hsign hnumeral).2.2 hplus
    | infinity _ => rfl
    | nan _ => rfl
  obtain ⟨c, hc, hkind⟩ := beginsNumber_iff.1 hbegins
  obtain ⟨cs, rfl⟩ := List.head?_eq_some_iff.1 hc
  refine ⟨c, cs, rfl, isAlpha_of_beginsNumber hbegins c rfl, ?_⟩
  rintro rfl
  revert hkind
  decide

theorem trimmed?_of_keyword {b : Bool} (hbool : sameIgnoringCase text (keywordOf b)) :
    trimmed? text = some (.bool b) := by
  have hother : ∀ letters : List Char, sameIgnoringCase (keywordOf b) letters = false →
      ¬ sameIgnoringCase text letters := by
    intro letters hne hsame
    rw [sameIgnoringCase_of_both hbool hsame] at hne
    cases hne
  have hnull : ¬ sameIgnoringCase text ['n', 'u', 'l', 'l'] := hother _ (by cases b <;> rfl)
  have hunquote : Quoted.unquote? text = none := by
    obtain ⟨_, hletters⟩ := isAlpha_of_sameIgnoringCase hbool (keywordOf_ne_nil b)
      (isAlpha_of_mem_keywordOf b)
    cases text with
    | nil => rfl
    | cons c cs =>
      apply Quoted.unquote?_of_ne
      rintro rfl
      cases hletters '\'' List.mem_cons_self
  rw [trimmed?, if_neg hnull, hunquote]
  cases b with
  | true => exact if_pos hbool
  | false => exact (if_neg (hother _ rfl)).trans (if_pos hbool)

/-- What stands between the blanks of a literal is a keyword, quoted text, an integer, another
numeral, or the name of a number that is not finite behind a minus sign. No text is two of them with
different values. -/
theorem trimmed?_eq_some_iff : trimmed? text = some value ↔ Reads text value := by
  constructor
  · intro hread
    unfold trimmed? at hread
    -- One split for each recogniser, in the order in which they are tried.
    split at hread
    · next hnull =>
      obtain rfl := Option.some.inj hread
      exact .null hnull
    split at hread
    · next inner hunquote =>
      obtain rfl := Option.some.inj hread
      obtain ⟨body, rfl, rfl⟩ := Quoted.unquote?_eq_some_iff.1 hunquote
      exact .quoted body
    split at hread
    · next htrue =>
      obtain rfl := Option.some.inj hread
      exact .bool htrue
    split at hread
    · next hfalse =>
      obtain rfl := Option.some.inj hread
      exact .bool hfalse
    split at hread
    · next hinteger =>
      obtain rfl := Option.some.inj hread
      obtain ⟨n, rfl, hn⟩ := integer?_eq_some_iff.1 hinteger
      exact .int hn
    · next hnone =>
      obtain ⟨x, rfl, hfloat⟩ := isFloat_of_float? hread
      refine .float hfloat fun n hn => ?_
      rw [integer?_eq_some_iff.2 ⟨n, rfl, hn⟩] at hnone
      cases hnone
  · -- No recogniser in front of the one that fits takes the text.
    intro hreads
    cases hreads with
    | null hnull => rw [trimmed?, if_pos hnull]
    | quoted body =>
      have hnull : sameIgnoringCase ('\'' :: body ++ ['\'']) ['n', 'u', 'l', 'l'] = false :=
        sameIgnoringCase_eq_false_of_head rfl rfl _ _
      rw [trimmed?, hnull, Quoted.unquote?_eq_some_iff.2 ⟨body, rfl, rfl⟩]
      rfl
    | bool hbool => exact trimmed?_of_keyword hbool
    | int hinteger =>
      obtain ⟨c, cs, rfl, hletter, hquote⟩ := head_of_isInteger hinteger
      rw [trimmed?_of_head hletter hquote, integer?_eq_some_iff.2 ⟨_, rfl, hinteger⟩]
      rfl
    | float hfloat hother =>
      obtain ⟨c, cs, rfl, hletter, hquote⟩ := hfloat.head
      have hnone : integer? (c :: cs) = none := by
        rw [Option.eq_none_iff_forall_ne_some]
        intro value hinteger
        obtain ⟨n, _, hn⟩ := integer?_eq_some_iff.1 hinteger
        exact hother n hn
      rw [trimmed?_of_head hletter hquote, hnone, hfloat.float?_eq]
      rfl

end Trimmed

section Reads

variable {text : List Char}

theorem reads_null_iff : Reads text .null ↔ sameIgnoringCase text ['n', 'u', 'l', 'l'] := by
  constructor
  · rintro ⟨hnull⟩
    assumption
  · exact .null

theorem reads_bool_iff {b : Bool} : Reads text (.bool b) ↔ sameIgnoringCase text (keywordOf b) := by
  constructor
  · rintro ⟨hbool⟩
    assumption
  · exact .bool

theorem reads_int_iff {n : Int64} : Reads text (.int n) ↔ IsInteger text n.toInt := by
  constructor
  · rintro ⟨hinteger⟩
    assumption
  · exact .int

theorem isFloat_of_reads {x : Binary64} : Reads text (.float x) → IsFloat text x
  | .float hfloat _ => hfloat

/-- The name of a number that is not finite is read as that number. -/
theorem NamesNonFinite.exists_reads (hname : NamesNonFinite text) :
    ∃ x, Reads text (.float x) := by
  obtain ⟨x, hfloat⟩ := hname.exists_isFloat
  refine ⟨x, .float hfloat ?_⟩
  intro n hinteger
  obtain ⟨c, hc, hdigit⟩ := hinteger.exists_digit
  rw [hname.isDigit_eq_false c hc] at hdigit
  cases hdigit

/-- What is of no kind, and is no name either, is not read as anything. -/
theorem not_reads (hint : ∀ n : Int64, ¬ IsInteger text n.toInt)
    (hnull : ¬ sameIgnoringCase text ['n', 'u', 'l', 'l'])
    (hbool : ∀ b, ¬ sameIgnoringCase text (keywordOf b)) (hdecimal : ¬ IsDecimal text)
    (hquoted : ∀ body, text ≠ '\'' :: body ++ ['\'']) (hname : ¬ NamesNonFinite text) :
    ∀ value, ¬ Reads text value := by
  intro value hreads
  cases hreads with
  | null h => exact hnull h
  | quoted body => exact hquoted body rfl
  | bool h => exact hbool _ h
  | int h => exact hint _ h
  | float hfloat _ =>
    cases hfloat with
    | decimal hsign _ hnumeral => exact hdecimal ⟨_, _, _, _, hsign, hnumeral, rfl⟩
    | infinity hinfinity => exact hname ⟨_, rfl, .inl hinfinity⟩
    | nan hnan => exact hname ⟨_, rfl, .inr hnan⟩

end Reads

/-- A literal is of the kind that is written between the blanks around it, and a number has a digit
in it. What is of no kind is text, with the blanks around it. -/
structure KindAsWritten (raw : List Char) : Prop where
  int_iff : ∀ n : Int64, Value.ofLiteral raw = .int n ↔ IsInteger (trim raw) n.toInt
  digit_of_float : ∀ x, Value.ofLiteral raw = .float x → ∃ c ∈ trim raw, c.isDigit
  null_iff : Value.ofLiteral raw = .null ↔ sameIgnoringCase (trim raw) ['n', 'u', 'l', 'l']
  bool_iff : ∀ b, Value.ofLiteral raw = .bool b ↔ sameIgnoringCase (trim raw) (keywordOf b)
  text_of_other : (∀ n : Int64, ¬ IsInteger (trim raw) n.toInt) →
    ¬ sameIgnoringCase (trim raw) ['n', 'u', 'l', 'l'] →
    (∀ b, ¬ sameIgnoringCase (trim raw) (keywordOf b)) → ¬ IsDecimal (trim raw) →
    (∀ body, trim raw ≠ '\'' :: body ++ ['\'']) → Value.ofLiteral raw = .text (String.ofList raw)

end Literal

namespace Value

open Literal (Reads NamesNonFinite KindAsWritten)

variable {raw : List Char} {value : Value}

theorem ofLiteral_eq_iff :
    ofLiteral raw = value ↔ Reads (trim raw) value ∨
      (∀ other, ¬ Reads (trim raw) other) ∧ value = .text (String.ofList raw) := by
  simp only [← Literal.trimmed?_eq_some_iff]
  rw [← Option.eq_none_iff_forall_ne_some, ofLiteral]
  cases Literal.trimmed? (trim raw) with
  | none => simp [eq_comm]
  | some other => simp

theorem ofLiteral_eq_iff_reads (hvalue : value ≠ .text (String.ofList raw)) :
    ofLiteral raw = value ↔ Reads (trim raw) value := by
  rw [ofLiteral_eq_iff]
  exact or_iff_left fun h => hvalue h.2

theorem kindAsWritten (hname : ¬ NamesNonFinite (trim raw)) : KindAsWritten raw where
  int_iff n := (ofLiteral_eq_iff_reads (by simp)).trans Literal.reads_int_iff
  null_iff := (ofLiteral_eq_iff_reads (by simp)).trans Literal.reads_null_iff
  bool_iff b := (ofLiteral_eq_iff_reads (by simp)).trans Literal.reads_bool_iff
  digit_of_float _ hfloat :=
    (Literal.isFloat_of_reads ((ofLiteral_eq_iff_reads (by simp)).1 hfloat)).exists_digit hname
  text_of_other hint hnull hbool hdecimal hquoted :=
    ofLiteral_eq_iff.2 (.inr ⟨Literal.not_reads hint hnull hbool hdecimal hquoted hname, rfl⟩)

theorem not_kindAsWritten (hname : NamesNonFinite (trim raw)) : ¬ KindAsWritten raw := by
  intro hkind
  obtain ⟨x, hreads⟩ := hname.exists_reads
  obtain ⟨c, hc, hdigit⟩ := hkind.digit_of_float x (ofLiteral_eq_iff.2 (.inl hreads))
  rw [hname.isDigit_eq_false c hc] at hdigit
  cases hdigit

/-- A literal stands for what is written between the blanks around it, or for itself as text if that
is nothing else. It is of the kind that is written there exactly if no number that is not finite is
named there behind a minus sign. -/
theorem ofLiteral_kind_iff (raw : List Char) :
    (∀ value, ofLiteral raw = value ↔ Reads (trim raw) value ∨
      (∀ other, ¬ Reads (trim raw) other) ∧ value = .text (String.ofList raw)) ∧
    (KindAsWritten raw ↔ ¬ NamesNonFinite (trim raw)) := by
  refine ⟨fun value => ofLiteral_eq_iff, ?_⟩
  constructor
  · intro hkind hname
    exact not_kindAsWritten hname hkind
  · exact kindAsWritten

/-- The name of an infinite number behind a minus sign is a number without a digit. -/
theorem ofLiteral_minus_inf :
    ofLiteral ['-', 'i', 'n', 'f'] = .float (.infinity true) ∧
      ¬ KindAsWritten ['-', 'i', 'n', 'f'] := by
  have hname : NamesNonFinite (trim ['-', 'i', 'n', 'f']) :=
    ⟨['i', 'n', 'f'], by decide +kernel, .inl (.inl rfl)⟩
  exact ⟨by decide +kernel, not_kindAsWritten hname⟩

end Value

end SqlTemplate
