import Mathlib.Data.List.Pairwise
import SqlTemplate.Keyword.FreeStanding
import SqlTemplate.Proofs.Keyword.Spelling
import SqlTemplate.Proofs.Text.Scan

namespace SqlTemplate

namespace Connector

@[simp]
theorem isWordBeside_none : isWordBeside none = false := rfl

theorem isWordBeside_some (c : Char) : isWordBeside (some c) = isWordChar c := rfl

theorem isNamePart_of_isWordBeside {beside : Option Char} (hfree : isWordBeside beside = false) :
    ∀ c ∈ beside, isNamePart isFoldedLetter c = false := by
  intro c hc
  rw [Option.mem_def.1 hc, isWordBeside_some] at hfree
  exact isNamePart_of_not_isWordChar hfree

/-- No word goes on between a place and what stands on either side of it. -/
def StandsFree (front rest : List Char) : Prop :=
  isWordBeside (lastFrom none front) = false ∧ isWordBeside rest.head? = false

/-- A word that is `AND` or `OR`, in any case. -/
def IsJoining (word : List Char) : Prop :=
  ∃ connector, connector ≠ where_ ∧ Spells word connector

theorem readJoining?_eq_some_iff {text word : List Char} :
    readJoining? text = some word ↔
      ∃ rest, text = word ++ rest ∧ IsJoining word ∧ isWordBeside rest.head? = false := by
  unfold readJoining?
  constructor
  · intro hread
    split at hread
    · simp at hread
    · next connector written rest htake =>
      split at hread
      · simp at hread
      · next hfree =>
        obtain rfl := Option.some.inj hread
        obtain ⟨happend, hspells⟩ := take?_eq_some_iff.1 htake
        simp only [Bool.or_eq_true, decide_eq_true_eq, not_or, Bool.not_eq_true] at hfree
        exact ⟨rest, happend, ⟨connector, hfree.1, hspells⟩, hfree.2⟩
  · rintro ⟨rest, rfl, ⟨connector, hne, hspells⟩, hfree⟩
    rw [take?_eq_some_iff.2 ⟨rfl, hspells⟩]
    simp [hne, hfree]

theorem joiningRecogniser_read?_eq_some_iff {before : Option Char} {text word : List Char} :
    joiningRecogniser.read? before text = some (word, ()) ↔
      isWordBeside before = false ∧
        ∃ rest, text = word ++ rest ∧ IsJoining word ∧ isWordBeside rest.head? = false := by
  rw [← readJoining?_eq_some_iff]
  cases hbefore : isWordBeside before <;> simp [joiningRecogniser, hbefore]

end Connector

open Connector

/-- A free-standing `AND` or `OR` at a span of a text. -/
structure JoiningAt (text : List Char) (span : Span) (front word rest : List Char) : Prop where
  text_eq : text = front ++ word ++ rest
  span_eq : span = .behind front word
  joining : IsJoining word
  free : StandsFree front rest

namespace JoiningAt

variable {text front word rest : List Char} {span : Span}

theorem isWordChar (hat : JoiningAt text span front word rest) : ∀ c ∈ word, isWordChar c := by
  obtain ⟨connector, _, hspells⟩ := hat.joining
  exact hspells.isWordChar

theorem isNamePart (hat : JoiningAt text span front word rest) :
    ∀ c ∈ word, isNamePart isFoldedLetter c := by
  obtain ⟨connector, _, hspells⟩ := hat.joining
  exact hspells.isNamePart

theorem word_ne_nil (hat : JoiningAt text span front word rest) : word ≠ [] := by
  obtain ⟨connector, _, hspells⟩ := hat.joining
  exact hspells.ne_nil

theorem start_lt_stop (hat : JoiningAt text span front word rest) : span.start < span.stop := by
  have hpos := byteLen_pos hat.word_ne_nil
  simp only [hat.span_eq, Span.behind_start, Span.behind_stop]
  omega

end JoiningAt

/-- The scan finds exactly the free-standing `AND`s and `OR`s. -/
theorem mem_joiningSpans_iff {text : List Char} {span : Span} :
    span ∈ joiningSpans text ↔ ∃ front word rest, JoiningAt text span front word rest := by
  rw [joiningSpans, List.mem_map, Recogniser.scan_eq_scanFrom]
  constructor
  · rintro ⟨m, hmem, rfl⟩
    obtain ⟨front, word, rest, htext, hspan, hread⟩ := Recogniser.exists_of_mem_scanFrom _ hmem
    obtain ⟨hbefore, rest', happend, hjoining, hafter⟩ :=
      joiningRecogniser_read?_eq_some_iff.1 hread
    obtain rfl := List.append_cancel_left happend
    exact ⟨front, word, rest, htext, by simpa [Span.behind] using hspan, hjoining, hbefore, hafter⟩
  · rintro ⟨front, word, rest, hat⟩
    obtain ⟨rfl, rfl, hjoining, hbefore, hafter⟩ := hat
    have hread : joiningRecogniser.read? (lastFrom none front) (word ++ rest) =
        some (word, ()) :=
      joiningRecogniser_read?_eq_some_iff.2 ⟨hbefore, rest, rfl, hjoining, hafter⟩
    obtain hmem | ⟨m, hmem, hstart, hstop⟩ :=
      joiningRecogniser.mem_scanFrom_or_within 0 hread
    · exact ⟨_, hmem, by simp [Span.behind]⟩
    · -- A find around the place would put one of its letters in front of the word.
      exfalso
      obtain ⟨front', word', rest', htext, hspan, hread'⟩ :=
        Recogniser.exists_of_mem_scanFrom _ hmem
      obtain ⟨_, _, _, ⟨_, _, hspells⟩, _⟩ := joiningRecogniser_read?_eq_some_iff.1 hread'
      simp only [hspan, Nat.zero_add] at hstart hstop
      rw [List.append_assoc front] at htext
      obtain ⟨gap, tail, hgap, _, rfl, rfl, _⟩ := split_of_within htext.symm hstart hstop
      obtain ⟨c, hc, hlast⟩ := lastFrom_mem (lastFrom none front') hgap
      rw [lastFrom_append, hlast, isWordBeside_some,
        hspells.isWordChar c (List.mem_append_left _ hc)] at hbefore
      cases hbefore

theorem pairwise_joiningSpans (text : List Char) :
    (joiningSpans text).Pairwise fun s t => s.stop ≤ t.start :=
  (joiningRecogniser.pairwise_scanFrom 0 none text).map _ fun _ _ h => h

/-- Free-standing `AND`s and `OR`s at different places keep apart. -/
theorem stop_le_start_of_mem_joiningSpans {text : List Char} {span span' : Span}
    (hmem : span ∈ joiningSpans text) (hmem' : span' ∈ joiningSpans text) (hne : span ≠ span') :
    span.stop ≤ span'.start ∨ span'.stop ≤ span.start := by
  have hsymm : Std.Symm fun s t : Span => s.stop ≤ t.start ∨ t.stop ≤ s.start :=
    ⟨fun _ _ hst => hst.symm⟩
  have hrow : (joiningSpans text).Pairwise fun s t => s.stop ≤ t.start ∨ t.stop ≤ s.start :=
    (pairwise_joiningSpans text).imp Or.inl
  exact hrow.forall hmem hmem' hne

theorem start_lt_stop_of_mem_joiningSpans {text : List Char} {span : Span}
    (hmem : span ∈ joiningSpans text) : span.start < span.stop := by
  obtain ⟨_, _, _, hat⟩ := mem_joiningSpans_iff.1 hmem
  exact hat.start_lt_stop

/-- The first free-standing `AND` or `OR` outside the taken spans is the one in front of which all
others overlap one of them. The spans may be any. -/
theorem firstJoiningOutside?_eq_some_iff {taken : List Span} {text : List Char} {span : Span} :
    firstJoiningOutside? taken text = some span ↔
      span ∈ joiningSpans text ∧ (∀ other ∈ taken, other.overlaps span = false) ∧
        ∀ earlier ∈ joiningSpans text, earlier.start < span.start →
          ∃ other ∈ taken, other.overlaps earlier := by
  have hsorted := pairwise_joiningSpans text
  have hnonempty := fun s => @start_lt_stop_of_mem_joiningSpans text s
  unfold firstJoiningOutside?
  generalize joiningSpans text = spans at hsorted hnonempty ⊢
  rw [List.find?_eq_some_iff_append]
  constructor
  · rintro ⟨hout, front, rest, rfl, hfront⟩
    refine ⟨by simp, by simpa using hout, fun earlier hmem hbefore => ?_⟩
    obtain hearlier | hmem := List.mem_append.1 hmem
    · simpa using hfront earlier hearlier
    · exfalso
      obtain ⟨_, htail, _⟩ := List.pairwise_append.1 hsorted
      obtain rfl | hrest := List.mem_cons.1 hmem
      · exact Nat.lt_irrefl _ hbefore
      · have hstop := (List.pairwise_cons.1 htail).1 earlier hrest
        have hspan := hnonempty span (by simp)
        omega
  · rintro ⟨hmem, hout, hearlier⟩
    obtain ⟨front, rest, rfl⟩ := List.append_of_mem hmem
    refine ⟨by simpa using hout, front, rest, rfl, fun earlier hfront => ?_⟩
    have hstop := (List.pairwise_append.1 hsorted).2.2 earlier hfront span (by simp)
    have hspan := hnonempty earlier (by simp [hfront])
    simpa using hearlier earlier (by simp [hfront]) (by omega)

theorem firstJoiningOutside?_eq_none_iff {taken : List Span} {text : List Char} :
    firstJoiningOutside? taken text = none ↔
      ∀ span ∈ joiningSpans text, ∃ other ∈ taken, other.overlaps span := by
  simp [firstJoiningOutside?, List.find?_eq_none]

end SqlTemplate
