import SqlTemplate.Literal.Assignment
import SqlTemplate.Proofs.Text.Trim
import SqlTemplate.Proofs.Text.Words

namespace SqlTemplate.Assignment

section Split

variable {text front rest : List Char}

theorem splitAtEquals?_append (rest : List Char) (hfront : '=' ∉ front) :
    splitAtEquals? (front ++ '=' :: rest) = some (front, rest) := by
  have hother : ∀ c ∈ front, (c != '=') = true := by
    intro c hc
    rw [bne_iff_ne]
    rintro rfl
    exact hfront hc
  obtain ⟨htake, hdrop⟩ := takeWhile_append_of_stops ('=' :: rest) hother (by simp)
  rw [splitAtEquals?, hdrop, htake]

/-- A name as it is written, with what is around it: all in front of the first equals sign. -/
def writtenName (text : List Char) : List Char :=
  text.takeWhile (· != '=')

theorem equals_not_mem_writtenName (text : List Char) : '=' ∉ writtenName text := by
  intro hmem
  have hother := List.mem_takeWhile_imp hmem
  cases hother

theorem writtenName_of_splitAtEquals? (hsplit : splitAtEquals? text = some (front, rest)) :
    writtenName text = front := by
  unfold splitAtEquals? at hsplit
  split at hsplit
  · cases hsplit
  · exact (Prod.mk.inj (Option.some.inj hsplit)).1

theorem writtenName_of_splitAtEquals?_eq_none (hnone : splitAtEquals? text = none) :
    writtenName text = text := by
  unfold splitAtEquals? at hnone
  split at hnone
  · next hdrop =>
    have happend := List.takeWhile_append_dropWhile (p := (· != '=')) (l := text)
    rwa [hdrop, List.append_nil] at happend
  · cases hnone

end Split

section Name

variable {text name : List Char}

/-- All colons in front of a text are dropped, and nothing else is. -/
theorem dropWhile_colons_append {colons : List Char} (hcolons : ∀ c ∈ colons, c = ':')
    (hhead : name.head? ≠ some ':') : (colons ++ name).dropWhile (· == ':') = name := by
  have hcolon : ∀ c ∈ colons, (c == ':') = true := fun c hc => beq_iff_eq.2 (hcolons c hc)
  have hstop : ∀ c ∈ name.head?, (c == ':') = false := by
    intro c hc
    rw [beq_eq_false_iff_ne]
    rintro rfl
    exact hhead hc
  exact (takeWhile_append_of_stops name hcolon hstop).2

/-- A name is what is left of a trimmed text behind all its colons, if anything is. -/
theorem nameOf_eq_ok_iff :
    nameOf text = .ok (String.ofList name) ↔
      ∃ colons, trim text = colons ++ name ∧ (∀ c ∈ colons, c = ':') ∧ name ≠ [] ∧
        name.head? ≠ some ':' := by
  have hdrop : nameOf text = .ok (String.ofList name) ↔
      (trim text).dropWhile (· == ':') = name ∧ name ≠ [] := by
    unfold nameOf
    split
    · next hnil =>
      rw [hnil]
      constructor
      · rintro ⟨⟩
      · rintro ⟨rfl, hne⟩
        exact absurd rfl hne
    · next found hne =>
      rw [Except.ok.injEq, String.ofList_inj]
      constructor
      · rintro rfl
        exact ⟨rfl, hne⟩
      · exact fun hfound => hfound.1
  rw [hdrop]
  constructor
  · rintro ⟨rfl, hne⟩
    refine ⟨(trim text).takeWhile (· == ':'), List.takeWhile_append_dropWhile.symm, ?_, hne, ?_⟩
    · intro c hc
      simpa using List.mem_takeWhile_imp hc
    · intro hhead
      have hnot := List.head?_dropWhile_not (· == ':') (trim text)
      rw [hhead] at hnot
      cases hnot
  · rintro ⟨colons, htrim, hcolons, hne, hhead⟩
    rw [htrim, dropWhile_colons_append hcolons hhead]
    exact ⟨rfl, hne⟩

/-- A name behind a colon is read, whatever blanks are around. -/
theorem nameOf_around {before after : List Char} (hname : IsName Char.isAlpha name)
    (hbefore : ∀ c ∈ before, isBlank c) (hafter : ∀ c ∈ after, isBlank c) :
    nameOf (before ++ ':' :: name ++ after) = .ok (String.ofList name) := by
  have hfilled : EndsFilled (':' :: name) := by
    apply EndsFilled.of_not_isBlank (List.cons_ne_nil ':' name)
    exact List.forall_mem_cons.2 ⟨rfl, hname.not_isBlank⟩
  refine nameOf_eq_ok_iff.2 ⟨[':'], hfilled.trim_blanks hbefore hafter, by simp, hname.ne_nil, ?_⟩
  intro hhead
  exact hname.not_mem rfl (List.mem_of_mem_head? hhead)

end Name

section Reading

variable {text front : List Char} {assignment : Assignment}

/-- A name and a literal are read if the name is. -/
theorem bind_nameOf_eq_ok_iff {value : Value} :
    (do return ⟨← nameOf front, value⟩ : Except AssignmentError Assignment) = .ok assignment ↔
      nameOf front = .ok assignment.name ∧ value = assignment.value := by
  obtain ⟨name, value'⟩ := assignment
  cases hname : nameOf front with
  | error e =>
    constructor
    · rintro ⟨⟩
    · rintro ⟨⟨⟩, _⟩
  | ok found =>
    change (Except.ok ⟨found, value⟩ : Except AssignmentError Assignment) = .ok ⟨name, value'⟩ ↔ _
    simp

/-- The name of an assignment is read from what is written in front of the equals sign. -/
theorem nameOf_writtenName
    (hread : parse text = .ok assignment ∨ parseOrNull text = .ok assignment) :
    nameOf (writtenName text) = .ok assignment.name := by
  cases hsplit : splitAtEquals? text with
  | some parts =>
    obtain ⟨front, rest⟩ := parts
    rw [writtenName_of_splitAtEquals? hsplit]
    simp only [parse, parseOrNull, hsplit, or_self] at hread
    exact (bind_nameOf_eq_ok_iff.1 hread).1
  | none =>
    rw [writtenName_of_splitAtEquals?_eq_none hsplit]
    simp only [parse, parseOrNull, hsplit] at hread
    obtain herror | hread := hread
    · cases herror
    · exact (bind_nameOf_eq_ok_iff.1 hread).1

/-- In front of an equals sign a name is read, with the literal behind the sign. -/
theorem parse_append_iff (name : String) (rest : List Char) (hfront : '=' ∉ front) :
    (parse (front ++ '=' :: rest) = .ok ⟨name, .ofLiteral rest⟩ ↔ nameOf front = .ok name) ∧
      (parseOrNull (front ++ '=' :: rest) = .ok ⟨name, .ofLiteral rest⟩ ↔
        nameOf front = .ok name) := by
  have hbind : (do return ⟨← nameOf front, .ofLiteral rest⟩ : Except AssignmentError Assignment) =
      .ok ⟨name, .ofLiteral rest⟩ ↔ nameOf front = .ok name := by
    rw [bind_nameOf_eq_ok_iff]
    exact and_iff_left rfl
  simp only [parse, parseOrNull, splitAtEquals?_append rest hfront]
  exact ⟨hbind, hbind⟩

end Reading

/-- A name that is ready for use: it is not empty, has no blanks at its ends and does not begin with
a colon. -/
structure IsNormal (name : List Char) : Prop where
  endsFilled : EndsFilled name
  head_ne_colon : name.head? ≠ some ':'

/-- Behind the colons that a written name begins with stands a blank, and then the rest of it. -/
def BlankBehindColons (written : List Char) : Prop :=
  ∃ colons c rest, trim written = colons ++ c :: rest ∧ (∀ d ∈ colons, d = ':') ∧ isBlank c

section Normal

variable {written name : List Char}

/-- Whatever is read as a name has at most one fault, a blank at its beginning. -/
theorem of_nameOf_eq_ok (hname : nameOf written = .ok (String.ofList name)) :
    name ≠ [] ∧ name.head? ≠ some ':' ∧ (∃ c ∈ name.getLast?, isBlank c = false) ∧
      ∀ c ∈ name, c ∈ written := by
  obtain ⟨colons, htrim, _, hne, hhead⟩ := nameOf_eq_ok_iff.1 hname
  have hfilled : EndsFilled (colons ++ name) := by
    rw [← htrim]
    apply EndsFilled.of_trim
    rw [htrim]
    exact List.append_ne_nil_of_right_ne_nil colons hne
  refine ⟨hne, hhead, ?_, ?_⟩
  · obtain ⟨c, hlast, hfull⟩ := hfilled.last
    rw [List.getLast?_append_of_ne_nil colons hne] at hlast
    exact ⟨c, hlast, hfull⟩
  · intro c hc
    obtain ⟨before, after, hwritten, _⟩ := exists_blanks_around_trim written
    rw [hwritten, htrim]
    simp [hc]

/-- A name begins with a blank just if one stands behind the colons. -/
theorem head?_isBlank_iff (hname : nameOf written = .ok (String.ofList name)) :
    (∃ c ∈ name.head?, isBlank c) ↔ BlankBehindColons written := by
  obtain ⟨colons, htrim, hcolons, hne, hhead⟩ := nameOf_eq_ok_iff.1 hname
  constructor
  · rintro ⟨c, hc, hblank⟩
    obtain ⟨rest, rfl⟩ := List.head?_eq_some_iff.1 hc
    exact ⟨colons, c, rest, htrim, hcolons, hblank⟩
  · rintro ⟨colons', c, rest, htrim', hcolons', hblank⟩
    have hhead' : (c :: rest).head? ≠ some ':' := by
      intro hcolon
      rw [Option.some.inj hcolon] at hblank
      cases hblank
    have hdrop := dropWhile_colons_append hcolons hhead
    rw [← htrim, htrim', dropWhile_colons_append hcolons' hhead'] at hdrop
    subst hdrop
    exact ⟨c, rfl, hblank⟩

/-- What does not begin with a colon is read as it is just if no blanks are at its ends. -/
theorem nameOf_self_iff (hne : name ≠ []) (hhead : name.head? ≠ some ':') :
    nameOf name = .ok (String.ofList name) ↔ EndsFilled name := by
  rw [nameOf_eq_ok_iff]
  constructor
  · rintro ⟨colons, htrim, _⟩
    -- Trimming makes no text longer, so no colons were dropped.
    have hle := byteLen_trim_le name
    rw [htrim, byteLen_append] at hle
    obtain rfl : colons = [] := byteLen_eq_zero_iff.1 (by omega)
    rw [List.nil_append] at htrim
    rw [← htrim] at hne ⊢
    exact .of_trim hne
  · intro hfilled
    exact ⟨[], hfilled.trim_eq, by simp, hne, hhead⟩

end Normal

/-- The name that an assignment gives is not empty, begins with no colon and ends with no blank. It
is normal, and is read back as it is in front of every literal, just if no blank stands behind the
colons that it is written with. -/
theorem name_isNormal_iff {text : List Char} {assignment : Assignment}
    (hread : parse text = .ok assignment ∨ parseOrNull text = .ok assignment) :
    let name := assignment.name.toList
    (name ≠ [] ∧ name.head? ≠ some ':' ∧ ∃ c ∈ name.getLast?, isBlank c = false) ∧
      (IsNormal name ↔ ¬ BlankBehindColons (writtenName text)) ∧
      ((∀ rest, parse (name ++ '=' :: rest) = .ok ⟨assignment.name, .ofLiteral rest⟩ ∧
          parseOrNull (name ++ '=' :: rest) = .ok ⟨assignment.name, .ofLiteral rest⟩) ↔
        ¬ BlankBehindColons (writtenName text)) := by
  intro name
  have hofList : String.ofList name = assignment.name := String.ofList_toList
  have hname : nameOf (writtenName text) = .ok (String.ofList name) := by
    rw [hofList]
    exact nameOf_writtenName hread
  obtain ⟨hne, hhead, hlast, hmem⟩ := of_nameOf_eq_ok hname
  have hequals : '=' ∉ name := fun h => equals_not_mem_writtenName text (hmem '=' h)
  have hfilled : EndsFilled name ↔ ¬ BlankBehindColons (writtenName text) := by
    rw [← head?_isBlank_iff hname]
    constructor
    · rintro hfilled ⟨c, hc, hblank⟩
      obtain ⟨⟨d, hd, hfull⟩, _⟩ := hfilled
      obtain rfl : c = d := Option.mem_unique hc hd
      rw [hblank] at hfull
      cases hfull
    · intro hnone
      refine ⟨⟨name.head hne, List.head?_eq_some_head hne, ?_⟩, hlast⟩
      by_contra hblank
      exact hnone ⟨_, List.head?_eq_some_head hne, by simpa using hblank⟩
  refine ⟨⟨hne, hhead, hlast⟩, ?_, ?_⟩
  · rw [← hfilled]
    exact ⟨fun hnormal => hnormal.endsFilled, fun hends => ⟨hends, hhead⟩⟩
  · rw [← hfilled, ← nameOf_self_iff hne hhead, hofList]
    constructor
    · intro hback
      exact (parse_append_iff assignment.name [] hequals).1.1 (hback []).1
    · intro hself rest
      obtain ⟨hparse, hparseOrNull⟩ := parse_append_iff assignment.name rest hequals
      exact ⟨hparse.2 hself, hparseOrNull.2 hself⟩

/-- A name with blanks and colons in front of it and blanks behind it. -/
theorem name_isNormal_iff_age :
    let text := "\t::age = ':x=1'".toList
    let assignment : Assignment := ⟨"age", .text ":x=1"⟩
    let name := assignment.name.toList
    (parse text = .ok assignment ∨ parseOrNull text = .ok assignment) ∧
      (name ≠ [] ∧ name.head? ≠ some ':' ∧ ∃ c ∈ name.getLast?, isBlank c = false) ∧
      (IsNormal name ↔ ¬ BlankBehindColons (writtenName text)) ∧
      ((∀ rest, parse (name ++ '=' :: rest) = .ok ⟨assignment.name, .ofLiteral rest⟩ ∧
          parseOrNull (name ++ '=' :: rest) = .ok ⟨assignment.name, .ofLiteral rest⟩) ↔
        ¬ BlankBehindColons (writtenName text)) := by
  intro text assignment name
  have hread : parse text = .ok assignment ∨ parseOrNull text = .ok assignment :=
    .inl (by decide +kernel)
  exact ⟨hread, name_isNormal_iff hread⟩

/-- A name with a blank behind its colon begins with the blank, and is another name when it is read
back. -/
theorem parse_keeps_blank_behind_colon :
    parse ": a=1".toList = .ok ⟨" a", .int 1⟩ ∧
      parse (" a".toList ++ '=' :: ['1']) = .ok ⟨"a", .int 1⟩ ∧
      ¬ ∀ (text : List Char) (assignment : Assignment),
        parse text = .ok assignment ∨ parseOrNull text = .ok assignment →
          IsNormal assignment.name.toList := by
  have hread : parse ": a=1".toList = .ok ⟨" a", .int 1⟩ := by decide +kernel
  refine ⟨hread, by decide +kernel, fun hnormal => ?_⟩
  obtain ⟨⟨⟨c, hc, hfull⟩, _⟩, _⟩ := hnormal _ _ (.inl hread)
  obtain rfl : ' ' = c := by simpa using hc
  cases hfull

end SqlTemplate.Assignment
