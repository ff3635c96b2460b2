import SqlTemplate.Proofs.Placeholder.Seams
import SqlTemplate.Proofs.Pruning.Script

namespace SqlTemplate

open Connector

namespace Edit

/-- The edit leaves the placeholder out. -/
def Covers (e : Edit) (p : Placeholder) : Prop :=
  e.isPromotion = false ∧ e.span.start ≤ p.span.start ∧ p.span.stop ≤ e.span.stop

instance (e : Edit) (p : Placeholder) : Decidable (e.Covers p) :=
  inferInstanceAs (Decidable (_ ∧ _))

/-- The edit begins within the placeholder. -/
def Cuts (e : Edit) (p : Placeholder) : Prop :=
  p.span.start < e.span.start ∧ e.span.start < p.span.stop

instance (e : Edit) (p : Placeholder) : Decidable (e.Cuts p) :=
  inferInstanceAs (Decidable (_ ∧ _))

/-- The edit removes what stands between the placeholder and a colon in front of it. -/
def Hides (text : List Char) (e : Edit) (p : Placeholder) : Prop :=
  e.isPromotion = false ∧ e.span.stop = p.span.start ∧
    lastFrom none (splitAtByte e.span.start text).1 = some ':'

instance (text : List Char) (e : Edit) (p : Placeholder) : Decidable (e.Hides text p) :=
  inferInstanceAs (Decidable (_ ∧ _))

/-- The edit changes how the placeholder is read: it begins within it, or removes what stands
between it and a colon. -/
def Disturbs (text : List Char) (e : Edit) (p : Placeholder) : Prop :=
  e.Cuts p ∨ e.Hides text p

instance (text : List Char) (e : Edit) (p : Placeholder) : Decidable (e.Disturbs text p) :=
  inferInstanceAs (Decidable (_ ∨ _))

theorem noColon_replacement (e : Edit) : ':' ∉ e.replacement := by
  cases e with
  | remove span => exact List.not_mem_nil
  | promote span =>
    change ':' ∉ where_.letters
    decide

end Edit

namespace EditAt

variable {e : Edit} {front stretch rest : List Char}

theorem isWordBeside_last (hat : EditAt e front stretch rest) (before : List Char) :
    isWordBeside (lastFrom none (before ++ stretch)) = true := by
  obtain ⟨c, hlast, hpart⟩ := hat.last (lastFrom none before)
  rw [lastFrom_append, hlast]
  exact isWordChar_of_isNamePart hpart

theorem isNamePart_front (hat : EditAt e front stretch rest) :
    ∀ c ∈ lastFrom none front, isNamePart Char.isAlpha c = false := fun c hc =>
  isNamePart_ascii (isNamePart_of_isWordBeside hat.free c hc)

theorem isSome_leadingName? (hat : EditAt e front stretch rest) (later : List Char) :
    (leadingName? (stretch ++ later)).isSome := by
  obtain ⟨c, cs, rfl, hletter⟩ := hat.begins
  exact SqlTemplate.isSome_leadingName? hletter

/-- A placeholder that an edit cuts has its colon in front of the edit, and no colon before that. -/
theorem cuts_iff (hat : EditAt e front stretch rest) {p : Placeholder} :
    p ∈ placeholders (front ++ stretch ++ rest) ∧ e.Cuts p ↔
      ∃ init name, front = init ++ [':'] ∧ lastFrom none init ≠ some ':' ∧
        p = .at (byteLen init) name ∧ leadingName? (stretch ++ rest) = some name := by
  rw [Edit.Cuts, hat.span_eq, Span.behind_start]
  constructor
  · rintro ⟨hp, hstart, hstop⟩
    obtain ⟨init, back, name, htext, rfl, hname⟩ := mem_placeholders_iff.1 hp
    obtain ⟨hbefore, after, rfl, hisName, hends⟩ := nameAt?_eq_some_iff.1 hname
    have htext' : init ++ (':' :: name) ++ after = front ++ (stretch ++ rest) := by
      simpa using htext.symm
    obtain ⟨gap, tail, hgap, _, hsplit, rfl, hrest⟩ := split_of_within htext' hstart hstop
    obtain ⟨c, gap', rfl⟩ := List.exists_cons_of_ne_nil hgap
    obtain ⟨rfl, rfl⟩ := List.cons.inj hsplit
    obtain rfl | hne := eq_or_ne gap' []
    · exact ⟨init, _, rfl, hbefore, rfl, leadingName?_eq_some_iff.2 ⟨after, hrest, hisName, hends⟩⟩
    · -- A letter of the name in front of the edit would join the edit's word.
      exfalso
      obtain ⟨d, hd, hlast⟩ := lastFrom_mem (lastFrom none (init ++ [':'])) hne
      have hpart := hat.isNamePart_front d (by
        rw [Option.mem_def, ← hlast, ← lastFrom_append]
        simp)
      rw [hisName.isNamePart d (List.mem_append_left tail hd)] at hpart
      cases hpart
  · rintro ⟨init, name, rfl, hbefore, rfl, hname⟩
    have hhere : nameAt? (lastFrom none init) (':' :: (stretch ++ rest)) = some name := by
      rw [nameAt?_colon, if_neg hbefore, hname]
    obtain ⟨_, _, hisName, _⟩ := leadingName?_eq_some_iff.1 hname
    have hpos := byteLen_pos hisName.ne_nil
    refine ⟨mem_placeholders_iff.2 ⟨init, _, name, by simp, rfl, hhere⟩, ?_, ?_⟩
    · simp [Placeholder.at, byteLen_append, Char.utf8Size_pos]
    · simp only [Placeholder.at, byteLen_append, byteLen_cons, byteLen_nil]
      omega

theorem exists_cuts_iff (hat : EditAt e front stretch rest) :
    (∃ p ∈ placeholders (front ++ stretch ++ rest), e.Cuts p) ↔ EndsFresh none front := by
  constructor
  · rintro ⟨p, hcuts⟩
    obtain ⟨init, _, hinit, hbefore, _⟩ := hat.cuts_iff.1 hcuts
    exact ⟨init, hinit, hbefore⟩
  · rintro ⟨init, hinit, hbefore⟩
    obtain ⟨name, hname⟩ := Option.isSome_iff_exists.1 (hat.isSome_leadingName? rest)
    exact ⟨_, hat.cuts_iff.2 ⟨init, name, hinit, hbefore, rfl, hname⟩⟩

theorem hides_iff (hat : EditAt e front stretch rest) {p : Placeholder} :
    e.Hides (front ++ stretch ++ rest) p ↔
      e.isPromotion = false ∧ byteLen (front ++ stretch) = p.span.start ∧
        lastFrom none front = some ':' := by
  have hfront : (splitAtByte e.span.start (front ++ stretch ++ rest)).1 = front := by
    rw [hat.span_eq, Span.behind_start, List.append_assoc, splitAtByte_append]
  rw [Edit.Hides, hfront, hat.span_eq, Span.behind_stop, byteLen_append]

/-- When an edit changes how no placeholder is read, as seen from the characters around the edit. -/
theorem not_disturbs_iff (hat : EditAt e front stretch rest) :
    (∀ p ∈ placeholders (front ++ stretch ++ rest),
      ¬ e.Disturbs (front ++ stretch ++ rest) p) ↔
      ¬ EndsFresh none front ∧ (e.isPromotion = false → lastFrom none front = some ':' →
        nameAt? (lastFrom none (front ++ stretch)) rest = none) := by
  rw [← hat.exists_cuts_iff]
  constructor
  · intro hfree
    refine ⟨?_, fun hremoves hcolon => ?_⟩
    · rintro ⟨p, hp, hcuts⟩
      exact hfree p hp (.inl hcuts)
    · by_contra hsome
      obtain ⟨name, hname⟩ := Option.ne_none_iff_exists'.1 hsome
      exact hfree _ (mem_placeholders_iff.2 ⟨_, _, name, rfl, rfl, hname⟩)
        (.inr (hat.hides_iff.2 ⟨hremoves, rfl, hcolon⟩))
  · rintro ⟨hcut, hbehind⟩ p hp (hcuts | hhides)
    · exact hcut ⟨p, hp, hcuts⟩
    · obtain ⟨hremoves, hstop, hcolon⟩ := hat.hides_iff.1 hhides
      obtain ⟨front', back, name, htext, rfl, hname⟩ := mem_placeholders_iff.1 hp
      obtain ⟨rfl, rfl⟩ := append_inj_of_byteLen_eq htext hstop
      rw [hbehind hremoves hcolon] at hname
      cases hname

theorem ends_result {later : Script} (hat : EditAt e front stretch later.source)
    (hlater : later.At (front ++ stretch)) : EndsName isFoldedLetter later.result := by
  rw [EndsName, hlater.head?_result (hat.isWordBeside_last front)]
  exact hat.ends

/-- What an edit makes begin in its place: a promotion the name `WHERE`, a removal none. -/
theorem leadingName?_result {later : Script} (hat : EditAt e front stretch later.source)
    (hlater : later.At (front ++ stretch)) :
    leadingName? (e.replacement ++ later.result) =
      if e.isPromotion then some where_.letters else none := by
  have hends := (hat.ends_result hlater).ascii
  cases e with
  | remove span => exact leadingName?_append hends []
  | promote span =>
    refine leadingName?_eq_some_iff.2 ⟨later.result, rfl, ?_, hends⟩
    simp [IsName, letters, isNamePart]

theorem leadingName?_ne {later : Script} (hat : EditAt e front stretch later.source)
    (hlater : later.At (front ++ stretch)) :
    leadingName? (e.replacement ++ later.result) ≠ leadingName? (stretch ++ later.source) := by
  rw [hat.leadingName?_result hlater]
  by_cases hpromotes : e.isPromotion = true
  · obtain ⟨connector, hjoins, hspells⟩ := hat.joining hpromotes
    have hname : leadingName? (stretch ++ later.source) = some stretch := by
      refine leadingName?_eq_some_iff.2 ⟨later.source, rfl, ?_, hat.ends.ascii⟩
      obtain ⟨c, cs, rfl⟩ := List.exists_cons_of_ne_nil hspells.ne_nil
      refine ⟨hspells.isAlpha c List.mem_cons_self, fun d hd => ?_⟩
      simp [isNamePart, hspells.isAlpha d (List.mem_cons_of_mem c hd)]
    rw [if_pos hpromotes, hname]
    rintro ⟨rfl⟩
    exact hjoins (hspells.unique (spells_letters where_))
  · rw [if_neg hpromotes]
    exact (Option.isSome_iff_ne_none.1 (hat.isSome_leadingName? _)).symm

end EditAt

end SqlTemplate
