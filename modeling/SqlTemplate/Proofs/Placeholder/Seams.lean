import Mathlib.Data.List.Forall2
import Mathlib.Data.List.ReduceOption
import SqlTemplate.Proofs.Placeholder.Places
import SqlTemplate.Proofs.Text.Trim

namespace SqlTemplate

/-- The names of the placeholders that begin at the characters of a text, one for each character,
where `later` follows the text. -/
def reads : Option Char → List Char → List Char → List (Option (List Char))
  | _, [], _ => []
  | before, c :: cs, later => nameAt? before (c :: (cs ++ later)) :: reads (some c) cs later

theorem map_name_occurrences (start : Nat) (before : Option Char) (text later : List Char) :
    (occurrences start before text later).map Placeholder.name =
      (reads before text later).reduceOption.map String.ofList := by
  induction text generalizing start before with
  | nil => rfl
  | cons c cs ih =>
    rw [occurrences, reads, List.map_append, ih]
    cases nameAt? before (c :: (cs ++ later)) <;> simp [Placeholder.at]

theorem placeholderNames_eq_reads (text : List Char) :
    placeholderNames text = (reads none text []).reduceOption.map String.ofList := by
  rw [placeholderNames, placeholders_eq_occurrences, map_name_occurrences]

@[simp]
theorem length_reads (before : Option Char) (text later : List Char) :
    (reads before text later).length = text.length := by
  induction text generalizing before with
  | nil => rfl
  | cons c cs ih => rw [reads, List.length_cons, ih, List.length_cons]

theorem reads_append (before : Option Char) (text text' later : List Char) :
    reads before (text ++ text') later =
      reads before text (text' ++ later) ++ reads (lastFrom before text) text' later := by
  induction text generalizing before with
  | nil => rfl
  | cons c cs ih => simp [reads, ih]

/-- What ends a name makes no difference to what stands in front of it. -/
theorem reads_of_ends {later : List Char} (hends : EndsName Char.isAlpha later)
    (before : Option Char) (text : List Char) : reads before text later = reads before text [] := by
  induction text generalizing before with
  | nil => rfl
  | cons c cs ih => rw [reads, reads, ih, nameAt?_append hends, List.append_nil]

theorem reduceOption_reads_of_noColon {text : List Char} (hcolon : ':' ∉ text)
    (before : Option Char) (later : List Char) : (reads before text later).reduceOption = [] := by
  induction text generalizing before with
  | nil => rfl
  | cons c cs ih =>
    have hne : c ≠ ':' := by
      rintro rfl
      exact hcolon List.mem_cons_self
    rw [reads, nameAt?_of_ne_colon hne, List.reduceOption_cons_of_none]
    exact ih (fun hmem => hcolon (List.mem_cons_of_mem c hmem)) (some c)

section Fades

variable {α : Type}

/-- Nothing is found that was not found before. -/
def Fades : List (Option α) → List (Option α) → Prop :=
  List.Forall₂ fun found before => found.isSome → before.isSome

/-- Some of what was found is not found any more. -/
def Drops : List (Option α) → List (Option α) → Prop :=
  List.Forall₂ fun found before => found = none ∨ found = before

theorem Fades.refl (ps : List (Option α)) : Fades ps ps :=
  List.forall₂_same.2 fun _ _ => id

theorem Drops.refl (ps : List (Option α)) : Drops ps ps :=
  List.forall₂_same.2 fun _ _ => .inr rfl

theorem Drops.fades {ps ts : List (Option α)} (hdrops : Drops ps ts) : Fades ps ts :=
  List.Forall₂.imp (fun p t hpt hsome => by
    obtain hnone | heq := hpt
    · simp [hnone] at hsome
    · rwa [← heq]) hdrops

theorem Drops.mem {ps ts : List (Option α)} (hdrops : Drops ps ts) {a : α} (hmem : some a ∈ ps) :
    some a ∈ ts := by
  induction hdrops with
  | nil => cases hmem
  | @cons p t _ _ hhead _ ih =>
    obtain rfl | hmem := List.mem_cons.1 hmem
    · obtain hnone | rfl := hhead
      · cases hnone
      · exact List.mem_cons_self
    · exact List.mem_cons_of_mem t (ih hmem)

theorem Fades.append {ps ts ps' ts' : List (Option α)} (hfades : Fades ps ts)
    (hfades' : Fades ps' ts') : Fades (ps ++ ps') (ts ++ ts') :=
  List.rel_append hfades hfades'

theorem Drops.trans_fades {ps ms ts : List (Option α)} (hdrops : Drops ps ms)
    (hfades : Fades ms ts) : Fades ps ts := by
  induction hdrops generalizing ts with
  | nil => exact hfades
  | cons hhead _ ih =>
    cases hfades with
    | cons hhead' htail' =>
      refine .cons (fun hsome => hhead' ?_) (ih htail')
      obtain hnone | heq := hhead
      · simp [hnone] at hsome
      · rwa [← heq]

/-- Where everything is found in the end, nothing was dropped on the way. -/
theorem Drops.eq_of_fades {ps ms : List (Option α)} (hdrops : Drops ps ms)
    (hfades : Fades ms ps) : ps = ms := by
  induction hdrops with
  | nil => rfl
  | @cons p m _ _ hhead _ ih =>
    cases hfades with
    | cons hhead' htail' =>
      rw [ih htail']
      congr 1
      obtain hnone | heq := hhead
      · cases m with
        | none => exact hnone
        | some name => simp [hnone] at hhead'
      · exact heq

theorem Fades.length_reduceOption_le {ps ts : List (Option α)} (hfades : Fades ps ts) :
    ps.reduceOption.length ≤ ts.reduceOption.length := by
  induction hfades with
  | nil => exact Nat.le_refl _
  | @cons p t _ _ hhead _ ih =>
    cases p with
    | none =>
      cases t with
      | none => simpa using ih
      | some name =>
        simp only [List.reduceOption_cons_of_none, List.reduceOption_cons_of_some, List.length_cons]
        omega
    | some name =>
      cases t with
      | none => simp at hhead
      | some name' => simpa using ih

/-- Where nothing new is found, the finds are the same in a row only if they are at their places. -/
theorem Fades.reduceOption_eq_iff {ps ts : List (Option α)} (hfades : Fades ps ts) :
    ps.reduceOption = ts.reduceOption ↔ ps = ts := by
  refine ⟨fun hsame => ?_, congrArg _⟩
  induction hfades with
  | nil => rfl
  | @cons p t _ _ hhead htail ih =>
    cases p with
    | none =>
      cases t with
      | none =>
        rw [ih (by simpa using hsame)]
      | some name =>
        have hle := Fades.length_reduceOption_le htail
        rw [List.reduceOption_cons_of_none, List.reduceOption_cons_of_some] at hsame
        rw [hsame, List.length_cons] at hle
        omega
    | some name =>
      cases t with
      | none => simp at hhead
      | some name' =>
        rw [List.reduceOption_cons_of_some, List.reduceOption_cons_of_some] at hsame
        obtain ⟨rfl, hrest⟩ := List.cons.inj hsame
        rw [ih hrest]

end Fades

/-- The text ends with a colon that a name behind it would make a placeholder. -/
def EndsFresh (before : Option Char) (text : List Char) : Prop :=
  ∃ init, text = init ++ [':'] ∧ lastFrom before init ≠ some ':'

theorem endsFresh_append_iff {before : Option Char} (front : List Char) {text : List Char}
    (hne : text ≠ []) :
    EndsFresh before (front ++ text) ↔ EndsFresh (lastFrom before front) text := by
  obtain ⟨init, c, rfl⟩ := text.eq_nil_or_concat'.resolve_left hne
  constructor
  · rintro ⟨init', heq, hfresh⟩
    rw [← List.append_assoc] at heq
    obtain ⟨rfl, hcolon⟩ := List.append_inj' heq rfl
    rw [lastFrom_append] at hfresh
    exact ⟨init, by rw [hcolon], hfresh⟩
  · rintro ⟨init', heq, hfresh⟩
    exact ⟨front ++ init', by rw [heq, List.append_assoc], by rwa [lastFrom_append]⟩

theorem not_endsFresh_of_ne {before : Option Char} {init : List Char} {c : Char} (hne : c ≠ ':') :
    ¬ EndsFresh before (init ++ [c]) := by
  rintro ⟨init', heq, _⟩
  exact hne (List.cons.inj (List.append_inj' heq rfl).2).1

theorem endsFresh_concat_iff {before : Option Char} {init : List Char} :
    EndsFresh before (init ++ [':']) ↔ lastFrom before init ≠ some ':' := by
  constructor
  · rintro ⟨init', heq, hfresh⟩
    obtain rfl := (List.append_inj' heq rfl).1
    exact hfresh
  · intro hfresh
    exact ⟨init, rfl, hfresh⟩

section Later

variable {before : Option Char} {text later later' : List Char}

theorem reads_concat (before : Option Char) (init : List Char) (c : Char) (later : List Char) :
    reads before (init ++ [c]) later =
      reads before init (c :: later) ++ [nameAt? (lastFrom before init) (c :: later)] :=
  reads_append before init [c] later

/-- Where a name followed, another text that follows brings no new placeholder. -/
theorem fades_of_later (hend : ∀ c ∈ lastFrom before text, isNamePart Char.isAlpha c = false)
    (hnamed : (leadingName? later).isSome) :
    Fades (reads before text later') (reads before text later) := by
  obtain rfl | ⟨init, c, rfl⟩ := text.eq_nil_or_concat'
  · exact .nil
  · have hends := EndsName.cons (hend c (lastFrom_concat before init c))
    rw [reads_concat, reads_concat, reads_of_ends (hends later'), reads_of_ends (hends later)]
    refine (Fades.refl _).append (.cons (fun hsome => ?_) .nil)
    by_cases hcolon : c = ':'
    · subst hcolon
      rw [nameAt?_colon] at hsome ⊢
      split at hsome
      · simp at hsome
      · next hbefore => rwa [if_neg hbefore]
    · simp [nameAt?_of_ne_colon hcolon] at hsome

/-- Another text that follows changes a placeholder just where the colon at the end had one. -/
theorem reads_eq_iff_of_later
    (hend : ∀ c ∈ lastFrom before text, isNamePart Char.isAlpha c = false)
    (hother : leadingName? later' ≠ leadingName? later) :
    reads before text later' = reads before text later ↔ ¬ EndsFresh before text := by
  obtain rfl | ⟨init, c, rfl⟩ := text.eq_nil_or_concat'
  · refine iff_of_true rfl ?_
    rintro ⟨init, heq, _⟩
    simp at heq
  · have hends := EndsName.cons (hend c (lastFrom_concat before init c))
    rw [reads_concat, reads_concat, reads_of_ends (hends later'), reads_of_ends (hends later),
      List.append_cancel_left_eq, List.cons.injEq, and_iff_left rfl]
    by_cases hcolon : c = ':'
    · subst hcolon
      rw [nameAt?_colon, nameAt?_colon, endsFresh_concat_iff, not_not]
      by_cases hbefore : lastFrom before init = some ':'
      · simp [hbefore]
      · simp [hbefore, hother]
    · rw [nameAt?_of_ne_colon hcolon, nameAt?_of_ne_colon hcolon]
      exact iff_of_true rfl (not_endsFresh_of_ne hcolon)

end Later

section Before

variable {before : Option Char}

/-- Another character in front can only take the placeholder at the first colon. -/
theorem drops_of_before (hbefore : before ≠ some ':') (before' : Option Char)
    (text later : List Char) : Drops (reads before' text later) (reads before text later) := by
  cases text with
  | nil => exact .nil
  | cons c cs =>
    refine .cons ?_ (Drops.refl _)
    rw [nameAt?_of_before_ne hbefore before']
    split
    · exact .inl rfl
    · exact .inr rfl

theorem reads_eq_iff_of_before (hbefore : before ≠ some ':') (before' : Option Char)
    {text : List Char} (hne : text ≠ []) (later : List Char) :
    reads before' text later = reads before text later ↔
      (before' = some ':' → nameAt? before (text ++ later) = none) := by
  obtain ⟨c, cs, rfl⟩ := List.exists_cons_of_ne_nil hne
  rw [reads, reads, List.cons.injEq, and_iff_left rfl, nameAt?_of_before_ne hbefore before',
    List.cons_append]
  by_cases hcolon : before' = some ':'
  · simp [hcolon, eq_comm]
  · simp [hcolon]

end Before

section Between

variable {before before' : Option Char} {text later later' : List Char}

/-- A stretch that stood behind no colon and in front of a name brings no new placeholder, whatever
comes to stand beside it. -/
theorem fades_reads (hbefore : before ≠ some ':')
    (hend : ∀ c ∈ lastFrom before text, isNamePart Char.isAlpha c = false)
    (hnamed : (leadingName? later).isSome) :
    Fades (reads before' text later') (reads before text later) :=
  (drops_of_before hbefore before' text later').trans_fades (fades_of_later hend hnamed)

/-- When a stretch that is kept keeps its placeholders. It loses the one at its first colon if a
colon comes to stand in front, and the one at its last colon if that gets another name behind it. -/
theorem reads_eq_iff (hbefore : before ≠ some ':') (hne : text ≠ [])
    (hend : ∀ c ∈ lastFrom before text, isNamePart Char.isAlpha c = false)
    (hnamed : (leadingName? later).isSome) (hother : leadingName? later' ≠ leadingName? later) :
    reads before' text later' = reads before text later ↔
      ¬ EndsFresh before text ∧ (before' = some ':' → nameAt? before (text ++ later) = none) := by
  have hhead : reads before text later' = reads before text later →
      nameAt? before (text ++ later') = nameAt? before (text ++ later) := by
    obtain ⟨c, cs, rfl⟩ := List.exists_cons_of_ne_nil hne
    intro heq
    exact (List.cons.inj heq).1
  rw [← reads_eq_iff_of_later hend hother]
  constructor
  · intro heq
    have hdrops := drops_of_before hbefore before' text later'
    have hfades : Fades (reads before text later') (reads before' text later') := by
      rw [heq]
      exact fades_of_later hend hnamed
    have hsame := hdrops.eq_of_fades hfades
    have hlater := hsame.symm.trans heq
    refine ⟨hlater, ?_⟩
    rw [← hhead hlater]
    exact (reads_eq_iff_of_before hbefore before' hne later').1 hsame
  · rintro ⟨hlater, hcolon⟩
    rw [← hhead hlater] at hcolon
    exact ((reads_eq_iff_of_before hbefore before' hne later').2 hcolon).trans hlater

/-- A name that is new in a stretch that is kept is what follows the stretch. -/
theorem mem_reads_or_of_mem (hbefore : before ≠ some ':')
    (hend : ∀ c ∈ lastFrom before' text, isNamePart Char.isAlpha c = false) {name : List Char}
    (hmem : some name ∈ reads before' text later') :
    some name ∈ reads before text later ∨
      (leadingName? later' = some name ∧ EndsFresh before' text) := by
  obtain rfl | ⟨init, c, rfl⟩ := text.eq_nil_or_concat'
  · cases hmem
  · have hends := EndsName.cons (hend c (lastFrom_concat before' init c))
    rw [reads_concat, reads_of_ends (hends later'), List.mem_append, List.mem_singleton] at hmem
    obtain hmem | hname := hmem
    · refine .inl ?_
      rw [reads_concat, reads_of_ends (hends later)]
      exact List.mem_append_left _ ((drops_of_before hbefore before' init []).mem hmem)
    · refine .inr ?_
      obtain ⟨hfresh, rest, htext, hname'⟩ := nameAt?_eq_some_iff.1 hname.symm
      obtain ⟨rfl, rfl⟩ := List.cons.inj htext
      exact ⟨leadingName?_eq_some_iff.2 ⟨rest, rfl, hname'⟩, endsFresh_concat_iff.2 hfresh⟩

end Between

section Trim

variable {blanks : List Char}

theorem noColon_of_blanks (hblanks : ∀ c ∈ blanks, isBlank c) : ':' ∉ blanks := by
  intro hmem
  have hblank := hblanks ':' hmem
  simp [isBlank] at hblank

theorem placeholderNames_blanks_append (hblanks : ∀ c ∈ blanks, isBlank c) (text : List Char) :
    placeholderNames (blanks ++ text) = placeholderNames text := by
  have hcolon := noColon_of_blanks hblanks
  have hbefore : lastFrom none blanks ≠ some ':' := by
    obtain rfl | hne := eq_or_ne blanks []
    · simp
    · obtain ⟨c, hc, hlast⟩ := lastFrom_mem none hne
      rw [hlast]
      rintro ⟨rfl⟩
      exact hcolon hc
  have hreads : reads (lastFrom none blanks) text [] = reads none text [] := by
    obtain rfl | hne := eq_or_ne text []
    · rfl
    · exact (reads_eq_iff_of_before (by simp) _ hne []).2 fun h => absurd h hbefore
  rw [placeholderNames_eq_reads, placeholderNames_eq_reads, reads_append, hreads,
    List.reduceOption_append, reduceOption_reads_of_noColon hcolon, List.nil_append]

theorem placeholderNames_append_blanks (hblanks : ∀ c ∈ blanks, isBlank c) (text : List Char) :
    placeholderNames (text ++ blanks) = placeholderNames text := by
  have hends : EndsName isFoldedLetter (blanks ++ []) := by
    intro c hc
    rw [List.append_nil] at hc
    exact isNamePart_of_isBlank (hblanks c (List.mem_of_mem_head? hc))
  rw [placeholderNames_eq_reads, placeholderNames_eq_reads, reads_append, reads_of_ends hends.ascii,
    List.reduceOption_append, reduceOption_reads_of_noColon (noColon_of_blanks hblanks),
    List.append_nil]

theorem placeholderNames_trim (text : List Char) :
    placeholderNames (trim text) = placeholderNames text := by
  obtain ⟨before, after, htext, hbefore, hafter⟩ := exists_blanks_around_trim text
  calc placeholderNames (trim text)
    _ = placeholderNames (before ++ trim text) :=
      (placeholderNames_blanks_append hbefore _).symm
    _ = placeholderNames (before ++ trim text ++ after) :=
      (placeholderNames_append_blanks hafter _).symm
    _ = placeholderNames text := by rw [← htext]

end Trim

end SqlTemplate
