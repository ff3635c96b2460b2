import SqlTemplate.Keyword
import SqlTemplate.Proofs.Text.Words

namespace SqlTemplate

private theorem takeWord?_eq_none_of_ne {k k' : Char} {ks ks' text : List Char}
    (hother : (takeWord? (k' :: ks') text).isSome) (hne : k ≠ k') :
    takeWord? (k :: ks) text = none := by
  cases text with
  | nil => rfl
  | cons c cs =>
    by_cases hfold : foldedCapital c = k'
    · simp [takeWord?, hfold, hne.symm]
    · simp [takeWord?, hfold] at hother

namespace Connector

/-- A word spells a connector, in any case. -/
def Spells (word : List Char) (connector : Connector) : Prop :=
  word.map foldedCapital = connector.letters

theorem letters_ne_nil (connector : Connector) : connector.letters ≠ [] := by
  cases connector <;> simp [letters]

theorem isAlpha_of_mem_letters {connector : Connector} :
    ∀ k ∈ connector.letters, k.isAlpha := by
  cases connector <;> simp [letters]

/-- A connector is taken off a text exactly where it is spelled there. Nothing is asked of what
follows. -/
theorem take?_eq_some_iff {text written rest : List Char} {connector : Connector} :
    take? text = some (connector, written, rest) ↔
      text = written ++ rest ∧ Spells written connector := by
  constructor
  · exact eq_append_of_take?
  · intro hspelled
    have hword := takeWord?_eq_some_iff.2 hspelled
    have hsome : (takeWord? connector.letters text).isSome := by simp [hword]
    cases connector with
    | where_ => simp [take?, all, hword]
    | and =>
      have hwhere : takeWord? where_.letters text = none :=
        takeWord?_eq_none_of_ne hsome (by decide)
      simp [take?, all, List.findSome?, hword, hwhere]
    | or =>
      have hwhere : takeWord? where_.letters text = none :=
        takeWord?_eq_none_of_ne hsome (by decide)
      have hand : takeWord? and.letters text = none :=
        takeWord?_eq_none_of_ne hsome (by decide)
      simp [take?, all, List.findSome?, hword, hwhere, hand]

theorem spells_letters (connector : Connector) : Spells connector.letters connector := by
  cases connector <;> rfl

namespace Spells

variable {word : List Char} {connector : Connector}

theorem ne_nil (hspells : Spells word connector) : word ≠ [] := by
  rintro rfl
  exact letters_ne_nil connector hspells.symm

/-- No letter of a connector is written with a long s or a Kelvin sign. -/
theorem isAlpha (hspells : Spells word connector) : ∀ c ∈ word, c.isAlpha := by
  intro c hc
  have hmem : foldedCapital c ∈ connector.letters := hspells ▸ List.mem_map_of_mem hc
  have halpha := isAlpha_of_mem_letters _ hmem
  have hplain : foldedCapital c ≠ 'S' ∧ foldedCapital c ≠ 'K' := by
    generalize foldedCapital c = k at hmem
    revert k
    cases connector <;> simp [letters]
  obtain ⟨_, _, hupper⟩ := (foldedCapital_eq_iff hplain.1 hplain.2).1 rfl
  rw [← hupper, isAlpha_toUpper] at halpha
  exact halpha

theorem isNamePart (hspells : Spells word connector) :
    ∀ c ∈ word, isNamePart isFoldedLetter c := fun c hc =>
  isNamePart_of_isFoldedLetter (isFoldedLetter_of_isAlpha (hspells.isAlpha c hc))

theorem isWordChar (hspells : Spells word connector) : ∀ c ∈ word, isWordChar c := fun c hc =>
  isWordChar_of_isNamePart (hspells.isNamePart c hc)

theorem not_isBlank (hspells : Spells word connector) : ∀ c ∈ word, isBlank c = false := fun c hc =>
  isBlank_of_isWordChar (hspells.isWordChar c hc)

theorem byteLen_eq (hspells : Spells word connector) :
    byteLen word = byteLen connector.letters := by
  have hsize : ∀ cs : List Char, (∀ c ∈ cs, c.isAlpha) → byteLen cs = cs.length := by
    intro cs hcs
    induction cs with
    | nil => rfl
    | cons c cs ih =>
      have hascii := isAlpha_iff_toNat.1 (hcs c List.mem_cons_self)
      have hone : c.utf8Size = 1 := by
        rw [Char.utf8Size_eq_one_iff, UInt32.le_iff_toNat_le, Char.toNat_val]
        have h127 : (127 : UInt32).toNat = 127 := rfl
        omega
      rw [byteLen_cons, hone, ih fun d hd => hcs d (List.mem_cons_of_mem c hd), List.length_cons,
        Nat.add_comm]
  rw [hsize word hspells.isAlpha, hsize _ isAlpha_of_mem_letters, ← congrArg List.length hspells,
    List.length_map]

theorem isName (hspells : Spells word connector) : IsName isFoldedLetter word := by
  obtain ⟨c, cs, rfl⟩ := List.exists_cons_of_ne_nil hspells.ne_nil
  refine ⟨isFoldedLetter_of_isAlpha (hspells.isAlpha c List.mem_cons_self), ?_⟩
  intro d hd
  exact hspells.isNamePart d (List.mem_cons_of_mem c hd)

/-- A connector is spelled in ASCII letters, of either case. -/
theorem sameIgnoringCase (hspells : Spells word connector) :
    sameIgnoringCase word connector.letters := by
  have hcapitals : word.map Char.toUpper = connector.letters := by
    rw [← hspells]
    apply List.map_congr_left
    intro c hc
    have hletter := hspells.isAlpha c hc
    have hlong : c ≠ '\u017F' := by
      rintro rfl
      cases hletter
    have hkelvin : c ≠ '\u212A' := by
      rintro rfl
      cases hletter
    rw [foldedCapital, if_neg hlong, if_neg hkelvin]
  have hletters : connector.letters.map Char.toUpper = connector.letters := by
    cases connector <;> rfl
  rw [SqlTemplate.sameIgnoringCase, hcapitals, hletters, beq_self_eq_true]

theorem unique {connector' : Connector} (hspells : Spells word connector)
    (hspells' : Spells word connector') : connector = connector' := by
  have heq : connector.letters = connector'.letters := hspells.symm.trans hspells'
  revert heq
  cases connector <;> cases connector' <;> decide

end Spells

end Connector

namespace Operator

/-- A word spells an operator, in any case. -/
def Spells (word : List Char) (operator : Operator) : Prop :=
  word.map foldedCapital = operator.letters

theorem letters_ne_nil (operator : Operator) : operator.letters ≠ [] := by
  cases operator <;> simp [letters]

theorem exists_spells_of_take? {text word rest : List Char}
    (htake : take? text = some (word, rest)) :
    text = word ++ rest ∧ ∃ operator, Spells word operator := by
  obtain ⟨operator, _, hword⟩ := List.exists_of_findSome?_eq_some htake
  obtain ⟨happend, hspells⟩ := takeWord?_eq_some_iff.1 hword
  exact ⟨happend, operator, hspells⟩

/-- A spelled operator is taken, if it does not go on to `<=` or `>=`. -/
theorem take?_of_spells {word rest : List Char} {operator : Operator}
    (hspells : Spells word operator) (hrest : ∀ c ∈ rest.head?, foldedCapital c ≠ '=') :
    take? (word ++ rest) = some (word, rest) := by
  have hword : takeWord? operator.letters (word ++ rest) = some (word, rest) :=
    takeWord?_eq_some_iff.2 ⟨rfl, hspells⟩
  have hsome : (takeWord? operator.letters (word ++ rest)).isSome := by simp [hword]
  have hother : ∀ other : Operator, other.letters.head? ≠ operator.letters.head? →
      takeWord? other.letters (word ++ rest) = none := by
    intro other hne
    obtain ⟨k, ks, hk⟩ := List.exists_cons_of_ne_nil (letters_ne_nil other)
    obtain ⟨k', ks', hk'⟩ := List.exists_cons_of_ne_nil (letters_ne_nil operator)
    rw [hk'] at hsome
    rw [hk]
    exact takeWord?_eq_none_of_ne hsome fun heq => hne (by simp [hk, hk', heq])
  have hlonger : ∀ other : Operator, other.letters = operator.letters ++ ['='] →
      takeWord? other.letters (word ++ rest) = none := by
    intro other hletters
    rw [hletters, ← hspells, Option.eq_none_iff_forall_ne_some]
    rintro ⟨taken, after⟩ htake
    obtain ⟨htext, htaken⟩ := takeWord?_eq_some_iff.1 htake
    obtain ⟨begun, ended, rfl, hbegun, hended⟩ := List.map_eq_append_iff.1 htaken
    obtain ⟨c, rfl, hequals⟩ := List.map_eq_singleton_iff.1 hended
    have hlength : word.length = begun.length := by simpa using (congrArg List.length hbegun).symm
    obtain ⟨_, hafter⟩ := List.append_inj (htext.trans (List.append_assoc _ _ _)) hlength
    exact hrest c (by simp [hafter]) hequals
  unfold take? all
  cases operator with
  | lessOrEqual => simp [hword]
  | greaterOrEqual => simp [hword, hother lessOrEqual (by decide)]
  | equal => simp [hword, hother lessOrEqual (by decide), hother greaterOrEqual (by decide)]
  | less =>
    simp [hword, hlonger lessOrEqual rfl, hother greaterOrEqual (by decide),
      hother equal (by decide)]
  | greater =>
    simp [hword, hother lessOrEqual (by decide), hlonger greaterOrEqual rfl,
      hother equal (by decide), hother less (by decide)]
  | is =>
    simp [hword, hother lessOrEqual (by decide), hother greaterOrEqual (by decide),
      hother equal (by decide), hother less (by decide), hother greater (by decide)]
  | between =>
    simp [hword, hother lessOrEqual (by decide), hother greaterOrEqual (by decide),
      hother equal (by decide), hother less (by decide), hother greater (by decide),
      hother is (by decide)]
  | like =>
    simp [hword, hother lessOrEqual (by decide), hother greaterOrEqual (by decide),
      hother equal (by decide), hother less (by decide), hother greater (by decide),
      hother is (by decide), hother between (by decide)]

namespace Spells

variable {word : List Char} {operator : Operator}

theorem ne_nil (hspells : Spells word operator) : word ≠ [] := by
  rintro rfl
  exact letters_ne_nil operator hspells.symm

theorem unique {operator' : Operator} (hspells : Spells word operator)
    (hspells' : Spells word operator') : operator = operator' := by
  have heq : operator.letters = operator'.letters := hspells.symm.trans hspells'
  revert heq
  cases operator <;> cases operator' <;> decide

end Spells

theorem spells_of_sameIgnoringCase {word : List Char} {operator : Operator}
    (hsame : sameIgnoringCase word operator.letters) : Spells word operator := by
  apply map_foldedCapital_of_sameIgnoringCase hsame
  · cases operator <;> decide
  · cases operator <;> simp [letters]

theorem ofToken?_of_sameIgnoringCase {word : List Char} {operator : Operator}
    (hsame : sameIgnoringCase word operator.letters) : ofToken? word = some operator := by
  have hother : ∀ other : Operator, sameIgnoringCase word other.letters → other = operator :=
    fun other hsame' => (spells_of_sameIgnoringCase hsame').unique (spells_of_sameIgnoringCase hsame)
  rw [ofToken?, List.find?_eq_some_iff_append]
  refine ⟨hsame, ?_⟩
  have hmem : operator ∈ all := by cases operator <;> decide
  have hnodup : all.Nodup := by decide
  obtain ⟨before, after, hall⟩ := List.append_of_mem hmem
  refine ⟨before, after, hall, fun other hbefore => ?_⟩
  by_contra hsame'
  obtain rfl := hother other (by simpa using hsame')
  rw [hall] at hnodup
  exact (List.nodup_append.1 hnodup).2.2 other hbefore other List.mem_cons_self rfl

theorem sameIgnoringCase_of_ofToken? {word : List Char} {operator : Operator}
    (htoken : ofToken? word = some operator) : sameIgnoringCase word operator.letters := by
  rw [ofToken?, List.find?_eq_some_iff_append] at htoken
  exact htoken.1

/-- A spelled operator is none of ASCII just if it is written with a long s or a Kelvin sign. -/
theorem ofToken?_eq_none_iff {word : List Char} {operator : Operator}
    (hspells : Spells word operator) :
    ofToken? word = none ↔ ∃ c ∈ word, c = '\u017F' ∨ c = '\u212A' := by
  constructor
  · intro hnone
    by_contra hplain
    have hupper : word.map Char.toUpper = operator.letters := by
      rw [← hspells]
      apply List.map_congr_left
      intro c hc
      have hlong : c ≠ '\u017F' := fun heq => hplain ⟨c, hc, .inl heq⟩
      have hkelvin : c ≠ '\u212A' := fun heq => hplain ⟨c, hc, .inr heq⟩
      rw [foldedCapital, if_neg hlong, if_neg hkelvin]
    have hletters : operator.letters.map Char.toUpper = operator.letters := by
      cases operator <;> decide
    have hsame : sameIgnoringCase word operator.letters := by
      rw [sameIgnoringCase, beq_iff_eq, hupper, hletters]
    rw [ofToken?_of_sameIgnoringCase hsame] at hnone
    cases hnone
  · intro hodd
    obtain ⟨c, hc, hodd⟩ := hodd
    rw [Option.eq_none_iff_forall_ne_some]
    intro other hother
    have hsame := sameIgnoringCase_of_ofToken? hother
    rw [sameIgnoringCase, beq_iff_eq] at hsame
    have hmem : c.toUpper ∈ other.letters.map Char.toUpper := hsame ▸ List.mem_map_of_mem hc
    obtain rfl | rfl := hodd
    · revert hmem
      cases other <;> decide
    · revert hmem
      cases other <;> decide

end Operator

end SqlTemplate
