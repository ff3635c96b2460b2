import SqlTemplate.Proofs.Pruning.Rewriting
import SqlTemplate.Proofs.Pruning.Run

namespace SqlTemplate

open Connector

/-- A text cut up at its edits: what is kept, then what an edit changes, and so on. What the edits
make of the text is read off it. -/
inductive Script where
  | rest (kept : List Char)
  | edit (kept : List Char) (e : Edit) (stretch : List Char) (later : Script)

/-- An edit at its place. What it changes begins with a letter and ends within a name, and stands
apart from the words around it. -/
structure EditAt (e : Edit) (front stretch rest : List Char) : Prop where
  span_eq : e.span = .behind front stretch
  free : isWordBeside (lastFrom none front) = false
  begins : ∃ c cs, stretch = c :: cs ∧ c.isAlpha
  last : ∀ before, ∃ c, lastFrom before stretch = some c ∧ isNamePart isFoldedLetter c
  ends : EndsName isFoldedLetter rest
  joining : e.isPromotion = true → IsJoining stretch

theorem EditAt.start_lt_stop {e : Edit} {front stretch rest : List Char}
    (hat : EditAt e front stretch rest) : e.span.start < e.span.stop := by
  obtain ⟨c, cs, rfl, _⟩ := hat.begins
  have hpos := byteLen_pos (List.cons_ne_nil c cs)
  rw [hat.span_eq, Span.behind_start, Span.behind_stop]
  omega

/-- What stands where a run makes an edit. -/
theorem Pruning.Sited.exists_editAt {text : List Char} {e : Edit} (hsited : Sited text e) :
    ∃ front stretch rest, text = front ++ stretch ++ rest ∧ EditAt e front stretch rest := by
  cases e with
  | remove span =>
    obtain ⟨front, keyword, behind, rest, hat⟩ := hsited
    refine ⟨front, keyword ++ behind, rest, hat.text_eq, hat.span_eq, hat.free, ?_, hat.exists_last,
      hat.ends, nofun⟩
    obtain ⟨connector, hspells⟩ := hat.keyword
    obtain ⟨c, cs, rfl⟩ := List.exists_cons_of_ne_nil hspells.ne_nil
    exact ⟨c, cs ++ behind, rfl, hspells.isAlpha c List.mem_cons_self⟩
  | promote span =>
    obtain ⟨front, word, rest, hat⟩ := hsited
    obtain ⟨connector, _, hspells⟩ := hat.joining
    refine ⟨front, word, rest, hat.text_eq, hat.span_eq, hat.free.1, ?_, fun before => ?_,
      isNamePart_of_isWordBeside hat.free.2, fun _ => hat.joining⟩
    · obtain ⟨c, cs, rfl⟩ := List.exists_cons_of_ne_nil hspells.ne_nil
      exact ⟨c, cs, rfl, hspells.isAlpha c List.mem_cons_self⟩
    · obtain ⟨c, hc, hlast⟩ := lastFrom_mem before hspells.ne_nil
      exact ⟨c, hlast, hspells.isNamePart c hc⟩

namespace Script

/-- The text before the edits. -/
def source : Script → List Char
  | rest kept => kept
  | edit kept _ stretch later => kept ++ stretch ++ later.source

/-- The text after the edits. -/
def result : Script → List Char
  | rest kept => kept
  | edit kept e _ later => kept ++ e.replacement ++ later.result

/-- The edits, in text order. -/
def edits : Script → List Edit
  | rest _ => []
  | edit _ e _ later => e :: later.edits

theorem append_source_edit (front kept : List Char) (e : Edit) (stretch : List Char)
    (later : Script) :
    front ++ (edit kept e stretch later).source = front ++ kept ++ stretch ++ later.source := by
  simp [source]

/-- The edits are at their places, where `front` stands before the script. -/
def At (front : List Char) : Script → Prop
  | rest _ => True
  | edit kept e stretch later =>
    EditAt e (front ++ kept) stretch later.source ∧ later.At (front ++ kept ++ stretch)

namespace At

variable {front : List Char} {script : Script}

theorem exists_editAt (hat : script.At front) {e : Edit} (hmem : e ∈ script.edits) :
    ∃ gap stretch later, script.source = gap ++ stretch ++ later ∧
      EditAt e (front ++ gap) stretch later := by
  induction script generalizing front with
  | rest kept => cases hmem
  | edit kept f stretch later ih =>
    obtain ⟨hedit, hlater⟩ := hat
    obtain rfl | hmem := List.mem_cons.1 hmem
    · exact ⟨kept, stretch, later.source, rfl, hedit⟩
    · obtain ⟨gap, stretch', later', hsource, hedit'⟩ := ih hlater hmem
      refine ⟨kept ++ stretch ++ gap, stretch', later', ?_, by simpa using hedit'⟩
      simp [source, hsource]

theorem laid (hat : script.At front) :
    Edit.Laid front script.edits script.source script.result := by
  induction script generalizing front with
  | rest kept => exact .nil front kept
  | edit kept e stretch later ih =>
    obtain ⟨hedit, hlater⟩ := hat
    obtain ⟨c, cs, hstretch, _⟩ := hedit.begins
    exact .cons hedit.span_eq (by rw [hstretch]; exact List.cons_ne_nil c cs) (ih hlater)

theorem le_start (hat : script.At front) {e : Edit} (hmem : e ∈ script.edits) :
    byteLen front ≤ e.span.start :=
  hat.laid.le_start hmem

theorem start_lt_stop (hat : script.At front) {e : Edit} (hmem : e ∈ script.edits) :
    e.span.start < e.span.stop := by
  obtain ⟨_, _, _, _, hedit⟩ := hat.exists_editAt hmem
  exact hedit.start_lt_stop

/-- Carrying out the edits makes the result of the source. -/
theorem copy_eq (hat : script.At front) :
    Edit.copy script.edits (byteLen front) script.source = script.result :=
  hat.laid.copy_eq

/-- Behind a word something is kept, or nothing follows. -/
theorem head?_result (hat : script.At front) (hword : isWordBeside (lastFrom none front) = true) :
    script.result.head? = script.source.head? := by
  cases script with
  | rest kept => rfl
  | edit kept e stretch later =>
    have hne : kept ≠ [] := by
      rintro rfl
      have hfree := hat.1.free
      rw [List.append_nil, hword] at hfree
      cases hfree
    obtain ⟨c, cs, rfl⟩ := List.exists_cons_of_ne_nil hne
    rfl

end At

/-- Edits that stand in a row behind `front` have a script. -/
theorem exists_at {front text : List Char} {row : List Edit}
    (hsited : ∀ e ∈ row, ∃ front' stretch rest,
      front ++ text = front' ++ stretch ++ rest ∧ EditAt e front' stretch rest)
    (hbehind : ∀ e ∈ row, byteLen front ≤ e.span.start)
    (hrow : row.Pairwise fun e f => e.span.stop ≤ f.span.start) :
    ∃ script : Script, script.source = text ∧ script.edits = row ∧ script.At front := by
  induction row generalizing front text with
  | nil => exact ⟨rest text, rfl, rfl, trivial⟩
  | cons e row ih =>
    obtain ⟨hfirst, hrow'⟩ := List.pairwise_cons.1 hrow
    obtain ⟨front', stretch, later, htext, hedit⟩ := hsited e List.mem_cons_self
    have hstart := hbehind e List.mem_cons_self
    rw [hedit.span_eq, Span.behind_start] at hstart
    rw [List.append_assoc] at htext
    obtain ⟨kept, rfl, rfl⟩ := exists_append_of_byteLen_le htext hstart
    -- The edits ahead change what is left of the text behind this one.
    have hbehind' : ∀ f ∈ row, byteLen (front ++ kept ++ stretch) ≤ f.span.start := by
      intro f hf
      have hle := hfirst f hf
      rwa [hedit.span_eq, Span.behind_stop, ← byteLen_append] at hle
    obtain ⟨script, rfl, rfl, hat⟩ := @ih (front ++ kept ++ stretch) later
      (fun f hf => by simpa using hsited f (List.mem_cons_of_mem e hf)) hbehind' hrow'
    exact ⟨edit kept e stretch script, by simp [source], rfl, hedit, hat⟩

end Script

namespace Pruning

variable (lacks : String → Bool) (text : List Char)

theorem exists_editAt_of_mem_carriedOut {e : Edit} (he : e ∈ carriedOut lacks text) :
    ∃ front stretch rest, text = front ++ stretch ++ rest ∧ EditAt e front stretch rest := by
  obtain ⟨_, hinvariant⟩ := invariant_steps lacks text
  exact (hinvariant.sited e (mem_carriedOut_iff.1 he).1).exists_editAt

theorem pairwise_carriedOut :
    (carriedOut lacks text).Pairwise fun e f => e.span.stop ≤ f.span.start := by
  obtain ⟨_, hinvariant⟩ := invariant_steps lacks text
  refine (Edit.pairwise_carriedOut fun e he => Nat.le_of_lt ?_).2
  exact (hinvariant.sited e ((Edit.sort_perm _).mem_iff.1 he)).start_lt_stop

/-- What pruning does to a text, as a script. -/
theorem exists_script :
    ∃ script : Script, script.source = text ∧ script.edits = carriedOut lacks text ∧
      script.At [] :=
  Script.exists_at (fun _ he => exists_editAt_of_mem_carriedOut lacks text he)
    (fun _ _ => Nat.zero_le _) (pairwise_carriedOut lacks text)

end Pruning

theorem Script.At.applyAll_eq {lacks : String → Bool} {text : List Char} {script : Script}
    (hat : script.At []) (hsource : script.source = text)
    (hedits : script.edits = Pruning.carriedOut lacks text) :
    Edit.applyAll (Pruning.editsOf (Pruning.steps lacks text)) text = script.result := by
  rw [Edit.applyAll, ← Edit.copy_carriedOut, ← Pruning.carriedOut, ← hedits, ← hsource]
  exact hat.copy_eq

end SqlTemplate
