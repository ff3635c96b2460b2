import SqlTemplate.Placeholder
import SqlTemplate.Proofs.Text.Scan
import SqlTemplate.Proofs.Text.Words

namespace SqlTemplate

/-- The name that a text begins with. -/
def leadingName? (text : List Char) : Option (List Char) :=
  (takeName? Char.isAlpha text).map Prod.fst

/-- The name of the placeholder that a text begins with, behind the character `before`. -/
def nameAt? (before : Option Char) : List Char → Option (List Char)
  | ':' :: rest => if before = some ':' then none else leadingName? rest
  | _ => none

section LeadingName

variable {text name : List Char}

theorem leadingName?_eq_some_iff :
    leadingName? text = some name ↔
      ∃ rest, text = name ++ rest ∧ IsName Char.isAlpha name ∧ EndsName Char.isAlpha rest := by
  simp only [leadingName?, Option.map_eq_some_iff, Prod.exists, takeName?_eq_some_iff]
  constructor
  · rintro ⟨name', rest, hname, rfl⟩
    exact ⟨rest, hname⟩
  · rintro ⟨rest, hname⟩
    exact ⟨name, rest, hname, rfl⟩

theorem leadingName?_eq_none_iff :
    leadingName? text = none ↔ ∀ c ∈ text.head?, c.isAlpha = false := by
  rw [leadingName?, Option.map_eq_none_iff, takeName?_eq_none_iff]

theorem isSome_leadingName? {c : Char} {cs : List Char} (hletter : c.isAlpha) :
    (leadingName? (c :: cs)).isSome := by
  simp [leadingName?, takeName?, hletter]

/-- What ends a name is not read with one. -/
theorem leadingName?_append {later : List Char} (hends : EndsName Char.isAlpha later)
    (text : List Char) : leadingName? (text ++ later) = leadingName? text := by
  cases text with
  | nil =>
    have hnone : leadingName? later = none := by
      rw [leadingName?_eq_none_iff]
      intro c hc
      have hstop := hends c hc
      simp only [isNamePart, Bool.or_eq_false_iff] at hstop
      exact hstop.1.1
    rw [List.nil_append, hnone]
    rfl
  | cons d ds =>
    have htake : (ds ++ later).takeWhile (isNamePart Char.isAlpha) =
        ds.takeWhile (isNamePart Char.isAlpha) := by
      have hlater : later.takeWhile (isNamePart Char.isAlpha) = [] := by
        cases later with
        | nil => rfl
        | cons c cs => simp [hends c rfl]
      rw [List.takeWhile_append, hlater, List.append_nil]
      split
      · next hlength => exact ((List.takeWhile_prefix _).eq_of_length hlength).symm
      · rfl
    by_cases hletter : d.isAlpha
    · simp [leadingName?, takeName?, hletter, htake]
    · simp [leadingName?, takeName?, hletter]

end LeadingName

section NameAt

theorem nameAt?_of_ne_colon {before : Option Char} {c : Char} {cs : List Char} (hne : c ≠ ':') :
    nameAt? before (c :: cs) = none := by
  unfold nameAt?
  split
  · next heq => exact absurd (List.cons.inj heq).1 hne
  · rfl

theorem nameAt?_colon (before : Option Char) (rest : List Char) :
    nameAt? before (':' :: rest) = if before = some ':' then none else leadingName? rest := rfl

theorem nameAt?_eq_some_iff {before : Option Char} {text name : List Char} :
    nameAt? before text = some name ↔ before ≠ some ':' ∧
      ∃ rest, text = ':' :: (name ++ rest) ∧ IsName Char.isAlpha name ∧
        EndsName Char.isAlpha rest := by
  constructor
  · intro hname
    unfold nameAt? at hname
    split at hname
    · next rest =>
      split at hname
      · simp at hname
      · next hbefore =>
        obtain ⟨rest', rfl, hisName, hends⟩ := leadingName?_eq_some_iff.1 hname
        exact ⟨hbefore, rest', rfl, hisName, hends⟩
    · simp at hname
  · rintro ⟨hbefore, rest, rfl, hisName, hends⟩
    rw [nameAt?_colon, if_neg hbefore]
    exact leadingName?_eq_some_iff.2 ⟨rest, rfl, hisName, hends⟩

/-- Behind a colon no placeholder begins; otherwise what stands in front makes no difference. -/
theorem nameAt?_of_before_ne {before : Option Char} (hbefore : before ≠ some ':')
    (before' : Option Char) (text : List Char) :
    nameAt? before' text = if before' = some ':' then none else nameAt? before text := by
  cases text with
  | nil => simp [nameAt?]
  | cons c cs =>
    by_cases hcolon : c = ':'
    · subst hcolon
      rw [nameAt?_colon, nameAt?_colon, if_neg hbefore]
    · rw [nameAt?_of_ne_colon hcolon, nameAt?_of_ne_colon hcolon, ite_self]

theorem nameAt?_append {later : List Char} (hends : EndsName Char.isAlpha later)
    (before : Option Char) (c : Char) (cs : List Char) :
    nameAt? before (c :: (cs ++ later)) = nameAt? before (c :: cs) := by
  by_cases hcolon : c = ':'
  · subst hcolon
    rw [nameAt?_colon, nameAt?_colon, leadingName?_append hends]
  · rw [nameAt?_of_ne_colon hcolon, nameAt?_of_ne_colon hcolon]

end NameAt

/-- A placeholder that begins at byte `start`. -/
def Placeholder.at (start : Nat) (name : List Char) : Placeholder where
  span := ⟨start, start + byteLen (':' :: name)⟩
  name := String.ofList name

/-- The placeholders that begin in a text at byte `start`, behind the character `before`, where
`later` follows the text. -/
def occurrences : Nat → Option Char → List Char → List Char → List Placeholder
  | _, _, [], _ => []
  | start, before, c :: cs, later =>
    ((nameAt? before (c :: (cs ++ later))).map (Placeholder.at start)).toList ++
      occurrences (start + c.utf8Size) (some c) cs later

section Occurrences

theorem occurrences_append (start : Nat) (before : Option Char) (text text' later : List Char) :
    occurrences start before (text ++ text') later =
      occurrences start before text (text' ++ later) ++
        occurrences (start + byteLen text) (lastFrom before text) text' later := by
  induction text generalizing start before with
  | nil => rfl
  | cons c cs ih => simp [occurrences, ih, Nat.add_assoc]

theorem occurrences_eq_nil_of_noColon {text : List Char} (hcolon : ':' ∉ text) (start : Nat)
    (before : Option Char) (later : List Char) : occurrences start before text later = [] := by
  induction text generalizing start before with
  | nil => rfl
  | cons c cs ih =>
    have hne : c ≠ ':' := by
      rintro rfl
      exact hcolon List.mem_cons_self
    simp [occurrences, nameAt?_of_ne_colon hne, ih fun hmem => hcolon (List.mem_cons_of_mem c hmem)]

theorem mem_occurrences_iff {start : Nat} {before : Option Char} {text later : List Char}
    {p : Placeholder} :
    p ∈ occurrences start before text later ↔
      ∃ front c back name, text = front ++ c :: back ∧ p = .at (start + byteLen front) name ∧
        nameAt? (lastFrom before front) (c :: (back ++ later)) = some name := by
  induction text generalizing start before with
  | nil => simp [occurrences]
  | cons d ds ih =>
    rw [occurrences, List.mem_append, ih]
    constructor
    · rintro (hhere | ⟨front, c, back, name, rfl, rfl, hname⟩)
      · obtain ⟨name, hname, rfl⟩ := Option.map_eq_some_iff.1 (Option.mem_toList.1 hhere)
        exact ⟨[], d, ds, name, rfl, rfl, hname⟩
      · exact ⟨d :: front, c, back, name, rfl, by rw [byteLen_cons, Nat.add_assoc], hname⟩
    · rintro ⟨front, c, back, name, htext, rfl, hname⟩
      cases front with
      | nil =>
        obtain ⟨rfl, rfl⟩ := List.cons.inj htext
        refine .inl (Option.mem_toList.2 (Option.map_eq_some_iff.2 ⟨name, hname, rfl⟩))
      | cons e front =>
        obtain ⟨rfl, rfl⟩ := List.cons.inj htext
        exact .inr ⟨front, c, back, name, rfl, by rw [byteLen_cons, Nat.add_assoc], hname⟩

theorem start_of_mem_occurrences {start : Nat} {before : Option Char} {text later : List Char}
    {p : Placeholder} (hmem : p ∈ occurrences start before text later) :
    start ≤ p.span.start ∧ p.span.start < start + byteLen text ∧ p.span.start < p.span.stop := by
  obtain ⟨front, c, back, name, rfl, rfl, _⟩ := mem_occurrences_iff.1 hmem
  have hcolon := byteLen_pos (List.cons_ne_nil ':' name)
  have hpos := byteLen_pos (List.cons_ne_nil c back)
  rw [byteLen_append]
  simp only [Placeholder.at]
  omega

/-- In front of what ends a name placeholders end with the text. -/
theorem stop_le_of_mem_occurrences {start : Nat} {before : Option Char} {text later : List Char}
    {p : Placeholder} (hends : EndsName Char.isAlpha later)
    (hmem : p ∈ occurrences start before text later) : p.span.stop ≤ start + byteLen text := by
  obtain ⟨front, c, back, name, rfl, rfl, hname⟩ := mem_occurrences_iff.1 hmem
  rw [nameAt?_append hends, nameAt?_eq_some_iff] at hname
  obtain ⟨_, rest, hwritten, _⟩ := hname
  have hlen := congrArg byteLen hwritten
  rw [byteLen_cons ':', byteLen_append] at hlen
  rw [byteLen_append, hlen]
  simp only [Placeholder.at, byteLen_cons]
  omega

end Occurrences

namespace ColonName

/-- Behind a colon at which nothing was read no name follows another colon. -/
def Ready (before : Option Char) (text : List Char) : Prop :=
  before = some ':' → ∀ rest, text = ':' :: rest → leadingName? rest = none

theorem read?_cast (rest : List Char) :
    read? (':' :: ':' :: rest) = (leadingName? rest).map cast := by
  rw [leadingName?, Option.map_map]
  rfl

theorem read?_placeholder {c : Char} (hne : c ≠ ':') (rest : List Char) :
    read? (':' :: c :: rest) = (leadingName? (c :: rest)).map placeholder := by
  rw [leadingName?, Option.map_map]
  unfold read?
  split
  · next heq => exact absurd (List.cons.inj (List.cons.inj heq).2).1 hne
  · next _ rest' heq =>
    obtain rfl := (List.cons.inj heq).2
    rfl
  · next hnone => exact absurd rfl (hnone (c :: rest))

theorem leadingName?_colon (rest : List Char) : leadingName? (':' :: rest) = none := rfl

/-- The name behind the colons. -/
def name : ColonName → List Char
  | placeholder name => name
  | cast name => name

/-- A cast or a placeholder is read where it is written, with a whole name. -/
theorem read?_eq_some_iff {text : List Char} {word : ColonName} :
    read? text = some word ↔
      ∃ rest, text = word.written ++ rest ∧ IsName Char.isAlpha word.name ∧
        EndsName Char.isAlpha rest := by
  constructor
  · intro hread
    obtain ⟨rest, rfl⟩ := exists_append_of_read? hread
    have hleading : leadingName? (word.name ++ rest) = some word.name := by
      cases word with
      | cast name =>
        have hcast := read?_cast (name ++ rest)
        rw [show ':' :: ':' :: (name ++ rest) = (cast name).written ++ rest from rfl, hread] at hcast
        obtain ⟨found, hfound, heq⟩ := Option.map_eq_some_iff.1 hcast.symm
        obtain rfl := ColonName.cast.inj heq
        exact hfound
      | placeholder name =>
        change read? (':' :: (name ++ rest)) = _ at hread
        change leadingName? (name ++ rest) = some name
        cases hbehind : name ++ rest with
        | nil =>
          rw [hbehind] at hread
          cases hread
        | cons c cs =>
          rw [hbehind] at hread
          by_cases hcolon : c = ':'
          · subst hcolon
            rw [read?_cast] at hread
            obtain ⟨_, _, heq⟩ := Option.map_eq_some_iff.1 hread
            cases heq
          · rw [read?_placeholder hcolon] at hread
            obtain ⟨found, hfound, heq⟩ := Option.map_eq_some_iff.1 hread
            obtain rfl := ColonName.placeholder.inj heq
            exact hfound
    obtain ⟨rest', happend, hname, hends⟩ := leadingName?_eq_some_iff.1 hleading
    obtain rfl := List.append_cancel_left happend
    exact ⟨rest, rfl, hname, hends⟩
  · rintro ⟨rest, rfl, hname, hends⟩
    have hleading : leadingName? (word.name ++ rest) = some word.name :=
      leadingName?_eq_some_iff.2 ⟨rest, rfl, hname, hends⟩
    cases word with
    | cast name =>
      change read? (':' :: ':' :: (name ++ rest)) = _
      rw [read?_cast]
      exact congrArg (Option.map cast) hleading
    | placeholder name =>
      obtain ⟨c, cs, rfl⟩ := List.exists_cons_of_ne_nil hname.ne_nil
      have hcolon : c ≠ ':' := by
        rintro rfl
        exact absurd hname.1 (by decide)
      change read? (':' :: c :: (cs ++ rest)) = _
      rw [read?_placeholder hcolon]
      exact congrArg (Option.map placeholder) hleading

/-- Behind a colon at which nothing is read stands no name. -/
theorem leadingName?_eq_none_of_read? {rest : List Char} (hnone : read? (':' :: rest) = none) :
    leadingName? rest = none := by
  rw [Option.eq_none_iff_forall_ne_some]
  intro name hname
  obtain ⟨rest', rfl, hisName, hends⟩ := leadingName?_eq_some_iff.1 hname
  have hread : read? (':' :: (name ++ rest')) = some (placeholder name) :=
    read?_eq_some_iff.2 ⟨rest', rfl, hisName, hends⟩
  rw [hnone] at hread
  cases hread

/-- Where nothing is read, no placeholder begins. -/
theorem nameAt?_eq_none_of_read? {before : Option Char} {text : List Char}
    (hread : read? text = none) : nameAt? before text = none := by
  cases text with
  | nil => rfl
  | cons c cs =>
    by_cases hcolon : c = ':'
    · subst hcolon
      rw [nameAt?_colon, leadingName?_eq_none_of_read? hread, ite_self]
    · exact nameAt?_of_ne_colon hcolon

theorem ready_of_read? {c : Char} {cs : List Char} (hread : read? (c :: cs) = none) :
    Ready (some c) cs := by
  rintro hcolon rest rfl
  obtain rfl := Option.some.inj hcolon
  rwa [read?_cast, Option.map_eq_none_iff] at hread

theorem lastFrom_written_ne_colon {word : ColonName} (hname : IsName Char.isAlpha word.name)
    (before : Option Char) : lastFrom before word.written ≠ some ':' := by
  intro hcolon
  obtain ⟨colons, hwritten⟩ : ∃ colons, word.written = colons ++ word.name := by
    cases word with
    | placeholder name => exact ⟨[':'], rfl⟩
    | cast name => exact ⟨[':', ':'], rfl⟩
  obtain ⟨c, hc, hlast⟩ := lastFrom_mem (lastFrom before colons) hname.ne_nil
  rw [hwritten, lastFrom_append, hlast] at hcolon
  obtain rfl := Option.some.inj hcolon
  exact hname.not_mem rfl hc

/-- What is read holds one placeholder or none, and ends with a name. -/
theorem occurrences_of_read? {before : Option Char} {text : List Char} {word : ColonName}
    (hready : Ready before text) (hread : read? text = some word) :
    ∃ rest, text = word.written ++ rest ∧ lastFrom before word.written ≠ some ':' ∧
      ∀ start, occurrences start before word.written rest =
        (word.placeholder?.map (⟨⟨start, start + byteLen word.written⟩, ·⟩)).toList := by
  obtain ⟨rest, rfl, hname, hends⟩ := read?_eq_some_iff.1 hread
  refine ⟨rest, rfl, lastFrom_written_ne_colon hname before, fun start => ?_⟩
  have hnone : ∀ (start : Nat) (b : Option Char), occurrences start b word.name rest = [] :=
    fun start b => occurrences_eq_nil_of_noColon (hname.not_mem rfl) start b rest
  cases word with
  | cast name =>
    change ∀ start b, occurrences start b name rest = [] at hnone
    simp [written, occurrences, nameAt?_colon, leadingName?_colon, placeholder?, hnone]
  | placeholder name =>
    have hleading : leadingName? (name ++ rest) = some name :=
      leadingName?_eq_some_iff.2 ⟨rest, rfl, hname, hends⟩
    have hbefore : before ≠ some ':' := by
      intro hcolon
      rw [hready hcolon (name ++ rest) rfl] at hleading
      cases hleading
    change ∀ start b, occurrences start b name rest = [] at hnone
    simp only [written, occurrences, nameAt?_colon, if_neg hbefore, hleading, hnone, placeholder?]
    rfl

theorem scanFrom_eq_occurrences {before : Option Char} {text : List Char}
    (hready : Ready before text) (start : Nat) :
    ((recogniser.scanFrom start before text).filterMap fun found =>
      found.value.placeholder?.map (⟨found.span, ·⟩)) = occurrences start before text [] := by
  have hrecogniser : ∀ (b : Option Char) (t : List Char),
      recogniser.read? b t = (read? t).map fun word => (word.written, word) := fun _ _ => rfl
  induction before, text using recogniser.scan_induction generalizing start with
  | hnil before => rfl
  | hplain before c cs hnone ih =>
    have hread : read? (c :: cs) = none := by
      rwa [hrecogniser, Option.map_eq_none_iff] at hnone
    rw [recogniser.scanFrom_cons_of_none hnone, ih (ready_of_read? hread), occurrences,
      List.append_nil, nameAt?_eq_none_of_read? hread]
    rfl
  | hfound before written rest word hsome ih =>
    have hread := hsome
    rw [hrecogniser] at hread
    obtain ⟨word', hword, heq⟩ := Option.map_eq_some_iff.1 hread
    obtain ⟨rfl, rfl⟩ := Prod.mk.inj heq
    obtain ⟨rest', htext, hlast, hoccurrences⟩ := occurrences_of_read? hready hword
    obtain rfl := List.append_cancel_left htext
    rw [recogniser.scanFrom_of_some hsome, List.filterMap_cons, occurrences_append,
      List.append_nil, hoccurrences, ih fun hcolon => absurd hcolon hlast]
    cases word'.placeholder? <;> simp

end ColonName

/-- The placeholders of a text are those that its places make. Whether one begins at a colon depends
on the character in front of the colon and the name behind it only. -/
theorem placeholders_eq_occurrences (text : List Char) :
    placeholders text = occurrences 0 none text [] :=
  ColonName.scanFrom_eq_occurrences (by rintro ⟨⟩) 0

theorem mem_placeholders_iff {text : List Char} {p : Placeholder} :
    p ∈ placeholders text ↔ ∃ front rest name, text = front ++ rest ∧
      p = .at (byteLen front) name ∧ nameAt? (lastFrom none front) rest = some name := by
  rw [placeholders_eq_occurrences, mem_occurrences_iff]
  constructor
  · rintro ⟨front, c, back, name, rfl, rfl, hname⟩
    exact ⟨front, c :: back, name, rfl, by rw [Nat.zero_add], by rwa [List.append_nil] at hname⟩
  · rintro ⟨front, rest, name, rfl, rfl, hname⟩
    cases rest with
    | nil => cases hname
    | cons c back =>
      exact ⟨front, c, back, name, rfl, by rw [Nat.zero_add], by rwa [List.append_nil]⟩

end SqlTemplate
