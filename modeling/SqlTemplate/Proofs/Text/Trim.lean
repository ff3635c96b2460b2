import Mathlib.Data.List.TakeWhile
import SqlTemplate.Text.Blank
import SqlTemplate.Text.Span

namespace SqlTemplate

theorem dropWhile_append_of_stop {p : Char → Bool} {cs ds : List Char}
    (hstop : ∃ c ∈ ds.head?, p c = false) : (cs ++ ds).dropWhile p = cs.dropWhile p ++ ds := by
  obtain ⟨c, hc, hnot⟩ := hstop
  cases ds with
  | nil => simp at hc
  | cons d ds =>
    obtain rfl : d = c := by simpa using hc
    rw [List.dropWhile_append]
    split
    · next hempty =>
      rw [List.isEmpty_iff.1 hempty]
      simp [hnot]
    · rfl

theorem trimStart_eq_nil {blanks : List Char} (hblanks : ∀ c ∈ blanks, isBlank c) :
    trimStart blanks = [] :=
  List.dropWhile_eq_nil_iff.2 hblanks

theorem trimEnd_eq_nil {blanks : List Char} (hblanks : ∀ c ∈ blanks, isBlank c) :
    trimEnd blanks = [] := by
  have hreverse : blanks.reverse.dropWhile isBlank = [] := by
    apply List.dropWhile_eq_nil_iff.2
    intro c hc
    exact hblanks c (List.mem_reverse.1 hc)
  rw [trimEnd, hreverse]
  rfl

theorem trimStart_blanks_append {blanks : List Char} (hblanks : ∀ c ∈ blanks, isBlank c)
    (text : List Char) : trimStart (blanks ++ text) = trimStart text :=
  List.dropWhile_append_of_pos hblanks

theorem trimEnd_append_blanks {blanks : List Char} (hblanks : ∀ c ∈ blanks, isBlank c)
    (text : List Char) : trimEnd (text ++ blanks) = trimEnd text := by
  have hreverse : ∀ c ∈ blanks.reverse, isBlank c := fun c hc => hblanks c (List.mem_reverse.1 hc)
  rw [trimEnd, List.reverse_append, List.dropWhile_append_of_pos hreverse, trimEnd]

/-- Blanks around a text make no difference to what trimming leaves of it. -/
theorem trim_blanks_around {before after : List Char} (hbefore : ∀ c ∈ before, isBlank c)
    (hafter : ∀ c ∈ after, isBlank c) (text : List Char) :
    trim (before ++ text ++ after) = trim text := by
  rw [trim, List.append_assoc, trimStart_blanks_append hbefore, trimStart, List.dropWhile_append]
  split
  · next hblank =>
    have hnil : trimStart text = [] := List.isEmpty_iff.1 hblank
    have hgone : after.dropWhile isBlank = [] := trimStart_eq_nil hafter
    rw [trim, hnil, hgone]
  · exact trimEnd_append_blanks hafter (trimStart text)

/-- In front of blanks, a text is what trimming its end leaves of it. -/
theorem exists_blanks_behind_trimEnd (text : List Char) :
    ∃ after, text = trimEnd text ++ after ∧ ∀ c ∈ after, isBlank c := by
  refine ⟨(text.reverse.takeWhile isBlank).reverse, ?_,
    fun c hc => List.mem_takeWhile_imp (List.mem_reverse.1 hc)⟩
  rw [trimEnd, ← List.reverse_append, List.takeWhile_append_dropWhile, List.reverse_reverse]

/-- Between blanks, a text is what trimming leaves of it. -/
theorem exists_blanks_around_trim (text : List Char) :
    ∃ before after, text = before ++ trim text ++ after ∧ (∀ c ∈ before, isBlank c) ∧
      ∀ c ∈ after, isBlank c := by
  obtain ⟨after, hafter, hblank⟩ := exists_blanks_behind_trimEnd (trimStart text)
  refine ⟨text.takeWhile isBlank, after, ?_, fun c hc => List.mem_takeWhile_imp hc, hblank⟩
  rw [trim, List.append_assoc, ← hafter, trimStart, List.takeWhile_append_dropWhile]

theorem byteLen_trim_le (text : List Char) : byteLen (trim text) ≤ byteLen text := by
  obtain ⟨before, after, htext, _⟩ := exists_blanks_around_trim text
  have hlen := congrArg byteLen htext
  rw [byteLen_append, byteLen_append] at hlen
  omega

/-- The text neither begins nor ends with a blank, and is not empty. -/
structure EndsFilled (text : List Char) : Prop where
  head : ∃ c ∈ text.head?, isBlank c = false
  last : ∃ c ∈ text.getLast?, isBlank c = false

namespace EndsFilled

variable {text : List Char}

theorem of_not_isBlank (hne : text ≠ []) (htext : ∀ c ∈ text, isBlank c = false) :
    EndsFilled text := by
  constructor
  · exact ⟨_, List.head?_eq_some_head hne, htext _ (List.head_mem hne)⟩
  · exact ⟨_, List.getLast?_eq_some_getLast hne, htext _ (List.getLast_mem hne)⟩

/-- A text that does not begin or end with a blank holds what is around it apart. -/
theorem trim_around (hends : EndsFilled text) (front rest : List Char) :
    trim (front ++ text ++ rest) = trimStart front ++ text ++ trimEnd rest := by
  obtain ⟨⟨c, hhead, hc⟩, ⟨d, hlast, hd⟩⟩ := hends
  rw [Option.mem_def] at hhead hlast
  have hstart : trimStart (front ++ text ++ rest) = trimStart front ++ (text ++ rest) := by
    rw [trimStart, List.append_assoc, dropWhile_append_of_stop ⟨c, ?_, hc⟩]
    · rfl
    · simp [hhead]
  have hreverse : (trimStart front ++ (text ++ rest)).reverse =
      rest.reverse ++ (text.reverse ++ (trimStart front).reverse) := by simp
  rw [trim, hstart, trimEnd, hreverse, dropWhile_append_of_stop ⟨d, ?_, hd⟩]
  · simp [trimEnd]
  · simp [hlast]

/-- Blanks around a text go. -/
theorem trim_blanks (hends : EndsFilled text) {before after : List Char}
    (hbefore : ∀ c ∈ before, isBlank c) (hafter : ∀ c ∈ after, isBlank c) :
    trim (before ++ text ++ after) = text := by
  rw [hends.trim_around, trimStart_eq_nil hbefore, trimEnd_eq_nil hafter, List.nil_append,
    List.append_nil]

/-- There are no blanks at the ends to go. -/
theorem trim_eq (hends : EndsFilled text) : trim text = text := by
  simpa using hends.trim_blanks (List.forall_mem_nil _) (List.forall_mem_nil _)

/-- What trimming leaves of a text has no blank at its ends. -/
theorem of_trim (hne : trim text ≠ []) : EndsFilled (trim text) := by
  constructor
  · obtain ⟨c, cs, hcons⟩ := List.exists_cons_of_ne_nil hne
    obtain ⟨after, hstart, _⟩ := exists_blanks_behind_trimEnd (trimStart text)
    have hhead := List.head?_dropWhile_not isBlank text
    rw [← trimStart, hstart, ← trim, hcons] at hhead
    exact ⟨c, by rw [hcons]; rfl, by simpa using hhead⟩
  · have hlast := List.head?_dropWhile_not isBlank (trimStart text).reverse
    have heq : (trim text).getLast? = ((trimStart text).reverse.dropWhile isBlank).head? := by
      rw [trim, trimEnd, List.getLast?_reverse]
    rw [← heq, List.getLast?_eq_some_getLast hne] at hlast
    exact ⟨_, List.getLast?_eq_some_getLast hne, by simpa using hlast⟩

end EndsFilled

/-- A word holds what is around it apart. -/
theorem trim_around {word : List Char} (front rest : List Char) (hne : word ≠ [])
    (hword : ∀ c ∈ word, isBlank c = false) :
    trim (front ++ word ++ rest) = trimStart front ++ word ++ trimEnd rest :=
  (EndsFilled.of_not_isBlank hne hword).trim_around front rest

end SqlTemplate
