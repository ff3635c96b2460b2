import SqlTemplate.Proofs.Pruning.Placeholders

namespace SqlTemplate

open Connector

namespace Script

/-- Some promotion stands right behind a colon of the result, where `before` stands in front of the
result, and that colon begins a placeholder. -/
def Renames : Option Char → Script → Prop
  | _, rest _ => False
  | before, edit kept e _ later =>
    (e.isPromotion = true ∧ EndsFresh before kept) ∨
      later.Renames (lastFrom before (kept ++ e.replacement))

namespace At

variable {front : List Char} {before : Option Char} {script : Script}

/-- In front of an edit nothing is kept that ends within a name. -/
theorem isNamePart_kept {kept stretch rest : List Char} {e : Edit}
    (hat : EditAt e (front ++ kept) stretch rest) (hfront : Fronted front before) :
    ∀ c ∈ lastFrom before kept, isNamePart Char.isAlpha c = false := by
  obtain rfl | ⟨init, c, rfl⟩ := kept.eq_nil_or_concat'
  · obtain ⟨_, rfl⟩ := hfront.eq_nil hat
    nofun
  · have hend := hat.isNamePart_front
    rw [← List.append_assoc, lastFrom_concat] at hend
    rwa [lastFrom_concat]

/-- Every name of the result is one of the source, or was made by a promotion. -/
theorem mem_keptReads_or (hat : script.At front) (hfront : Fronted front before)
    {name : List Char} (hmem : some name ∈ script.resultReads before) :
    some name ∈ script.keptReads (lastFrom none front) ∨
      (name = where_.letters ∧ script.Renames before) := by
  induction script generalizing front before with
  | rest kept => exact .inl ((drops_of_before hfront.ne_colon before kept []).mem hmem)
  | edit kept e stretch later ih =>
    rw [resultReads, List.mem_append] at hmem
    rw [keptReads, List.mem_append, Renames]
    obtain hmem | hmem := hmem
    · obtain hmem | ⟨hname, hfresh⟩ := mem_reads_or_of_mem hfront.ne_colon
        (isNamePart_kept hat.1 hfront) hmem
      · exact .inl (.inl hmem)
      · rw [hat.1.leadingName?_result hat.2] at hname
        by_cases hpromotes : e.isPromotion = true
        · rw [if_pos hpromotes] at hname
          exact .inr ⟨(Option.some.inj hname).symm, .inl ⟨hpromotes, hfresh⟩⟩
        · rw [if_neg hpromotes] at hname
          cases hname
    · obtain hmem | ⟨hname, hrenames⟩ := @ih (front ++ kept ++ stretch) _ hat.2
        (.inr (hat.1.isWordBeside_last _)) hmem
      · rw [List.append_assoc front, lastFrom_append none front] at hmem
        exact .inl (.inr hmem)
      · exact .inr ⟨hname, .inr hrenames⟩

theorem mem_resultReads_of_renames (hat : script.At front) (hrenames : script.Renames before) :
    some where_.letters ∈ script.resultReads before := by
  induction script generalizing front before with
  | rest kept => cases hrenames
  | edit kept e stretch later ih =>
    rw [resultReads, List.mem_append]
    obtain ⟨hpromotes, init, rfl, hfresh⟩ | hrenames := hrenames
    · refine .inl ?_
      rw [reads_concat, nameAt?_colon, if_neg hfresh, hat.1.leadingName?_result hat.2,
        if_pos hpromotes]
      exact List.mem_append_right _ List.mem_cons_self
    · exact .inr (ih hat.2 hrenames)

/-- Behind a word something is kept in front of an edit, and so begins a placeholder that the edit
cuts. -/
theorem le_start_of_cuts {text : List Char} (hat : script.At front)
    (htext : text = front ++ script.source) (hword : isWordBeside (lastFrom none front) = true)
    {e : Edit} (he : e ∈ script.edits) {p : Placeholder} (hp : p ∈ placeholders text)
    (hcuts : e.Cuts p) : byteLen front ≤ p.span.start := by
  obtain ⟨gap, stretch, rest, hsource, hedit⟩ := hat.exists_editAt he
  have htext' : text = front ++ gap ++ stretch ++ rest := by
    rw [htext, hsource]
    simp
  rw [htext'] at hp
  obtain ⟨init, name, hfront, _, rfl, _⟩ := hedit.cuts_iff.1 ⟨hp, hcuts⟩
  obtain rfl | ⟨gap, c, rfl⟩ := gap.eq_nil_or_concat'
  · have hfree := hedit.free
    rw [List.append_nil, hword] at hfree
    cases hfree
  · rw [← List.append_assoc] at hfront
    obtain ⟨rfl, _⟩ := List.append_inj' hfront rfl
    simp only [Placeholder.at, byteLen_append]
    omega

section Edit

variable {text kept stretch : List Char} {e : Edit} {later : Script}

theorem hides_iff_last (hat : (edit kept e stretch later).At front) (hfront : Fronted front before)
    (htext : text = front ++ (edit kept e stretch later).source) (p : Placeholder) :
    e.Hides text p ↔
      lastFrom before (kept ++ e.replacement) = some ':' ∧
        byteLen (front ++ kept ++ stretch) = p.span.start := by
  have htext' := htext.trans (append_source_edit front kept e stretch later)
  rw [htext', hat.1.hides_iff, hfront.last_eq_colon_iff hat.1]
  constructor
  · rintro ⟨hremoves, hstop, hcolon⟩
    exact ⟨⟨hremoves, hcolon⟩, hstop⟩
  · rintro ⟨⟨hremoves, hcolon⟩, hstop⟩
    exact ⟨hremoves, hstop, hcolon⟩

/-- The colon in front of an edit begins a placeholder of the result, if a name follows it, just if
it begins a placeholder of the source that nothing in front hides. -/
theorem endsFresh_kept_iff (hat : (edit kept e stretch later).At front)
    (hfront : Fronted front before)
    (htext : text = front ++ (edit kept e stretch later).source) :
    EndsFresh before kept ↔
      ∃ p ∈ placeholders text, e.Cuts p ∧ ¬ (before = some ':' ∧ byteLen front = p.span.start) ∧
        ∀ f ∈ (edit kept e stretch later).edits, ¬ f.Hides text p := by
  have htext' := htext.trans (append_source_edit front kept e stretch later)
  obtain ⟨hedit, hlater⟩ := id hat
  rw [htext']
  constructor
  · rintro ⟨init, rfl, hfresh⟩
    obtain ⟨name, hname⟩ := Option.isSome_iff_exists.1 (hedit.isSome_leadingName? later.source)
    have hinit : lastFrom none (front ++ init) ≠ some ':' := by
      rw [lastFrom_append]
      cases init with
      | nil => exact hfront.ne_colon
      | cons c cs => exact hfresh
    obtain ⟨hp, hcuts⟩ := hedit.cuts_iff.2
      ⟨front ++ init, name, (List.append_assoc _ _ _).symm, hinit, rfl, hname⟩
    refine ⟨_, hp, hcuts, ?_, fun f hf hhides => ?_⟩
    · rintro ⟨rfl, hstart⟩
      have hzero : byteLen init = 0 := by
        simp only [Placeholder.at, byteLen_append] at hstart
        omega
      obtain rfl := byteLen_eq_zero_iff.1 hzero
      exact hfresh rfl
    · have hspan := hat.start_lt_stop hf
      have hbehind : e.span.start ≤ f.span.start := by
        obtain rfl | hf := List.mem_cons.1 hf
        · exact Nat.le_refl _
        · have hle := hlater.le_start hf
          rw [byteLen_append] at hle
          rw [hedit.span_eq, Span.behind_start]
          omega
      have hstart := hcuts.1
      have hstop := hhides.2.1
      omega
  · rintro ⟨p, hp, hcuts, hfree, _⟩
    obtain ⟨init, _, hkept, hfresh, rfl, _⟩ := hedit.cuts_iff.1 ⟨hp, hcuts⟩
    obtain rfl | ⟨kept, c, rfl⟩ := kept.eq_nil_or_concat'
    · obtain ⟨rfl, _⟩ := hfront.eq_nil hedit
      simp at hkept
    · rw [← List.append_assoc] at hkept
      obtain ⟨rfl, hcolon⟩ := List.append_inj' hkept rfl
      obtain rfl := (List.cons.inj hcolon).1
      rw [endsFresh_concat_iff]
      cases kept with
      | nil =>
        intro hbefore
        exact hfree ⟨hbefore, by simp [Placeholder.at]⟩
      | cons d ds =>
        rw [lastFrom_append] at hfresh
        exact hfresh

end Edit

/-- A promotion renames a placeholder that it cuts, unless a removal hides the placeholder. -/
theorem renames_iff {text : List Char} (hat : script.At front) (hfront : Fronted front before)
    (htext : text = front ++ script.source) :
    script.Renames before ↔
      ∃ e ∈ script.edits, e.isPromotion = true ∧ ∃ p ∈ placeholders text, e.Cuts p ∧
        ¬ (before = some ':' ∧ byteLen front = p.span.start) ∧
          ∀ f ∈ script.edits, ¬ f.Hides text p := by
  induction script generalizing front before with
  | rest kept => simp [Renames, edits]
  | edit kept e stretch later ih =>
    have hword := hat.1.isWordBeside_last (front ++ kept)
    have htext' := htext.trans (append_source_edit front kept e stretch later)
    have hlen : byteLen front < byteLen (front ++ kept ++ stretch) := by
      obtain ⟨c, cs, rfl, _⟩ := hat.1.begins
      have hpos := byteLen_pos (List.cons_ne_nil c cs)
      rw [byteLen_append, byteLen_append]
      omega
    have hrest : later.Renames (lastFrom before (kept ++ e.replacement)) ↔
        ∃ f ∈ later.edits, f.isPromotion = true ∧ ∃ p ∈ placeholders text, f.Cuts p ∧
          ¬ (before = some ':' ∧ byteLen front = p.span.start) ∧
            ∀ g ∈ e :: later.edits, ¬ g.Hides text p := by
      rw [ih hat.2 (.inr hword) htext']
      -- The edit hides just what begins right behind it, behind a colon in front of it.
      simp only [List.forall_mem_cons, hides_iff_last hat hfront htext]
      constructor
      · rintro ⟨f, hf, hpromotes, p, hp, hcuts, hfree⟩
        have hle := hat.2.le_start_of_cuts htext' hword hf hp hcuts
        refine ⟨f, hf, hpromotes, p, hp, hcuts, ?_, hfree⟩
        rintro ⟨_, hstart⟩
        omega
      · rintro ⟨f, hf, hpromotes, p, hp, hcuts, _, hfree⟩
        exact ⟨f, hf, hpromotes, p, hp, hcuts, hfree⟩
    rw [Renames, hrest, endsFresh_kept_iff hat hfront htext, edits, List.exists_mem_cons_iff]

end At

end Script

namespace Pruning

/-- A promotion begins within a placeholder that no removal hides. -/
def Renames (lacks : String → Bool) (text : List Char) : Prop :=
  ∃ e ∈ carriedOut lacks text, e.isPromotion = true ∧
    ∃ p ∈ placeholders text, e.Cuts p ∧ ∀ f ∈ carriedOut lacks text, ¬ f.Hides text p

instance (lacks : String → Bool) (text : List Char) : Decidable (Renames lacks text) :=
  inferInstanceAs (Decidable (∃ e ∈ carriedOut lacks text, _))

/-- Pruning brings no name that the template does not have, unless a promotion renames a placeholder
and the template does not have the name `WHERE`. -/
theorem placeholderNames_removing_subset_iff (lacks : String → Bool) (template : String) :
    (∀ name ∈ placeholderNames (Pruned.removing lacks template).sql.toList,
        name ∈ placeholderNames template.toList) ↔
      where_.keyword ∈ placeholderNames template.toList ∨ ¬ Renames lacks template.toList := by
  obtain ⟨script, hsource, hedits, hat⟩ := exists_script lacks template.toList
  have hfronted : Script.Fronted [] none := .inl ⟨rfl, rfl⟩
  have hrenames : script.Renames none ↔ Renames lacks template.toList := by
    rw [hat.renames_iff hfronted hsource.symm, hedits, Renames]
    simp
  have hkept : ∀ name, some name ∈ script.keptReads none →
      String.ofList name ∈ placeholderNames template.toList := by
    intro name hname
    have hmem : String.ofList name ∈ (script.keptReads none).reduceOption.map String.ofList :=
      List.mem_map_of_mem (List.reduceOption_mem_iff.2 hname)
    have hfilter := hat.map_name_filter_occurrences
    rw [lastFrom_nil] at hfilter
    rw [← hfilter, hsource] at hmem
    obtain ⟨p, hp, heq⟩ := List.mem_map.1 hmem
    rw [placeholderNames, placeholders_eq_occurrences, ← heq]
    exact List.mem_map_of_mem (List.mem_of_mem_filter hp)
  rw [placeholderNames_removing hsource hedits hat, ← hrenames]
  constructor
  · intro hsubset
    by_cases hrename : script.Renames none
    · refine .inl (hsubset _ (List.mem_map_of_mem ?_))
      exact List.reduceOption_mem_iff.2 (hat.mem_resultReads_of_renames hrename)
    · exact .inr hrename
  · intro hnamed name hmem
    obtain ⟨name, hname, rfl⟩ := List.mem_map.1 hmem
    obtain hname | ⟨rfl, hrename⟩ :=
      hat.mem_keptReads_or hfronted (List.reduceOption_mem_iff.1 hname)
    · exact hkept name hname
    · exact hnamed.resolve_right fun hnot => hnot hrename

end Pruning

end SqlTemplate
