import SqlTemplate.Proofs.Pruning.Disturbance
import SqlTemplate.Pruning

namespace SqlTemplate

open Connector

namespace Script

/-- The placeholders of the source that begin where it is kept, as `reads` gives them. -/
def keptReads : Option Char → Script → List (Option (List Char))
  | before, rest kept => reads before kept []
  | before, edit kept _ stretch later =>
    reads before kept (stretch ++ later.source) ++
      later.keptReads (lastFrom before (kept ++ stretch))

/-- The placeholders of the result that begin where the source is kept. -/
def resultReads : Option Char → Script → List (Option (List Char))
  | before, rest kept => reads before kept []
  | before, edit kept e _ later =>
    reads before kept (e.replacement ++ later.result) ++
      later.resultReads (lastFrom before (kept ++ e.replacement))

/-- No placeholder of the result begins in what an edit writes. -/
theorem reduceOption_resultReads (before : Option Char) (script : Script) :
    (script.resultReads before).reduceOption = (reads before script.result []).reduceOption := by
  induction script generalizing before with
  | rest kept => rfl
  | edit kept e stretch later ih =>
    rw [resultReads, result, reads_append, reads_append, List.reduceOption_append, ih,
      List.reduceOption_append, List.reduceOption_append,
      reduceOption_reads_of_noColon e.noColon_replacement, List.append_nil, List.append_nil]

/-- The edits do not change how the placeholders in what is kept are read. -/
def Undisturbed (front : List Char) : Script → Prop
  | rest _ => True
  | edit kept e stretch later =>
    (¬ EndsFresh none (front ++ kept) ∧
      (e.isPromotion = false → lastFrom none (front ++ kept) = some ':' →
        nameAt? (lastFrom none (front ++ kept ++ stretch)) later.source = none)) ∧
    later.Undisturbed (front ++ kept ++ stretch)

/-- A script stands at the beginning of its text, or behind a word. The character `before` stands in
front of the result. -/
def Fronted (front : List Char) (before : Option Char) : Prop :=
  (front = [] ∧ before = none) ∨ isWordBeside (lastFrom none front) = true

section Fronted

variable {front : List Char} {before : Option Char}

theorem Fronted.ne_colon (hfront : Fronted front before) :
    lastFrom none front ≠ some ':' := by
  obtain ⟨rfl, _⟩ | hword := hfront
  · simp
  · intro hcolon
    rw [hcolon] at hword
    exact absurd hword (by decide)

/-- Where nothing is kept in front of an edit, nothing stands there. -/
theorem Fronted.eq_nil {stretch rest : List Char} {e : Edit} (hfront : Fronted front before)
    (hat : EditAt e (front ++ []) stretch rest) : front = [] ∧ before = none := by
  apply hfront.resolve_right
  intro hword
  have hfree := hat.free
  rw [List.append_nil, hword] at hfree
  cases hfree

/-- A colon in front of an edit comes to stand in front of what follows only if the edit removes. -/
theorem Fronted.last_eq_colon_iff {kept stretch rest : List Char} {e : Edit}
    (hfront : Fronted front before) (hat : EditAt e (front ++ kept) stretch rest) :
    lastFrom before (kept ++ e.replacement) = some ':' ↔
      e.isPromotion = false ∧ lastFrom none (front ++ kept) = some ':' := by
  cases e with
  | promote span =>
    have hlast : lastFrom before (kept ++ where_.letters) = some 'E' := by
      rw [lastFrom_append]
      rfl
    change lastFrom before (kept ++ where_.letters) = some ':' ↔ _
    simp [hlast, Edit.isPromotion]
  | remove span =>
    have hlast : lastFrom before kept = lastFrom none (front ++ kept) := by
      obtain rfl | ⟨init, c, rfl⟩ := kept.eq_nil_or_concat'
      · obtain ⟨rfl, rfl⟩ := hfront.eq_nil hat
        rfl
      · rw [← List.append_assoc, lastFrom_concat, lastFrom_concat]
    rw [← hlast]
    simp [Edit.replacement, Edit.isPromotion]

end Fronted

namespace At

variable {front : List Char} {script : Script}

theorem undisturbed_iff {text : List Char} (hat : script.At front)
    (htext : text = front ++ script.source) :
    script.Undisturbed front ↔
      ∀ e ∈ script.edits, ∀ p ∈ placeholders text, ¬ e.Disturbs text p := by
  induction script generalizing front with
  | rest kept => simp [Undisturbed, edits]
  | edit kept e stretch later ih =>
    obtain ⟨hedit, hlater⟩ := hat
    have htext' := htext.trans (append_source_edit front kept e stretch later)
    rw [Undisturbed, edits, List.forall_mem_cons, ih hlater htext', htext',
      hedit.not_disturbs_iff]

/-- A script begins where its text begins, or behind a word. Then a kept stretch in front of an edit
gets no new placeholder, and keeps those it has unless the edit or the one before disturbs it. -/
theorem reads_kept {before : Option Char} {kept stretch : List Char} {e : Edit} {later : Script}
    (hat : (edit kept e stretch later).At front) (hfront : Fronted front before) :
    Fades (reads before kept (e.replacement ++ later.result))
        (reads (lastFrom none front) kept (stretch ++ later.source)) ∧
      (reads before kept (e.replacement ++ later.result) =
          reads (lastFrom none front) kept (stretch ++ later.source) ↔
        ¬ EndsFresh none (front ++ kept) ∧ (before = some ':' →
          nameAt? (lastFrom none front) (kept ++ (stretch ++ later.source)) = none)) := by
  obtain ⟨hedit, hlater⟩ := hat
  by_cases hne : kept = []
  · subst hne
    obtain ⟨rfl, rfl⟩ := hfront.eq_nil hedit
    refine ⟨.nil, iff_of_true rfl ⟨?_, nofun⟩⟩
    rintro ⟨init, heq, _⟩
    simp at heq
  · have hbefore := hfront.ne_colon
    have hend := hedit.isNamePart_front
    rw [lastFrom_append] at hend
    have hnamed := hedit.isSome_leadingName? later.source
    refine ⟨fades_reads hbefore hend hnamed, ?_⟩
    rw [endsFresh_append_iff front hne]
    exact reads_eq_iff hbefore hne hend hnamed (hedit.leadingName?_ne hlater)

theorem fades {before : Option Char} (hat : script.At front) (hfront : Fronted front before) :
    Fades (script.resultReads before) (script.keptReads (lastFrom none front)) := by
  induction script generalizing front before with
  | rest kept => exact (drops_of_before hfront.ne_colon before kept []).fades
  | edit kept e stretch later ih =>
    have hlater := @ih (front ++ kept ++ stretch) (lastFrom before (kept ++ e.replacement)) hat.2
      (.inr (hat.1.isWordBeside_last _))
    rw [List.append_assoc front, lastFrom_append none front] at hlater
    exact (reads_kept hat hfront).1.append hlater

/-- The placeholders are kept just if no edit disturbs them, and none is brought behind a colon. -/
theorem resultReads_eq_iff {before : Option Char} (hat : script.At front)
    (hfront : Fronted front before) :
    script.resultReads before = script.keptReads (lastFrom none front) ↔
      script.Undisturbed front ∧
        (before = some ':' → nameAt? (lastFrom none front) script.source = none) := by
  induction script generalizing front before with
  | rest kept =>
    rw [Undisturbed, true_and]
    by_cases hne : kept = []
    · subst hne
      exact iff_of_true rfl fun _ => rfl
    · have hreads := reads_eq_iff_of_before hfront.ne_colon before hne []
      rwa [List.append_nil] at hreads
  | edit kept e stretch later ih =>
    have hlater := @ih (front ++ kept ++ stretch) (lastFrom before (kept ++ e.replacement)) hat.2
      (.inr (hat.1.isWordBeside_last _))
    have hkept := (reads_kept hat hfront).2
    -- A colon that a removal brings in front of what follows disturbs a placeholder there.
    have hlast := hfront.last_eq_colon_iff hat.1
    have hsplit : (edit kept e stretch later).resultReads before =
        (edit kept e stretch later).keptReads (lastFrom none front) ↔
          reads before kept (e.replacement ++ later.result) =
            reads (lastFrom none front) kept (stretch ++ later.source) ∧
          later.resultReads (lastFrom before (kept ++ e.replacement)) =
            later.keptReads (lastFrom none (front ++ kept ++ stretch)) := by
      rw [List.append_assoc front, lastFrom_append none front]
      constructor
      · intro heq
        exact List.append_inj heq (by simp)
      · rintro ⟨hhere, hrest⟩
        rw [resultReads, keptReads, hhere, hrest]
    rw [hsplit, hkept, hlater, hlast, Undisturbed, source, List.append_assoc kept]
    constructor
    · rintro ⟨⟨hfresh, hbefore⟩, hrest, hbehind⟩
      exact ⟨⟨⟨hfresh, fun hremoves hcolon => hbehind ⟨hremoves, hcolon⟩⟩, hrest⟩, hbefore⟩
    · rintro ⟨⟨⟨hfresh, hbehind⟩, hrest⟩, hbefore⟩
      exact ⟨⟨hfresh, hbefore⟩, hrest, fun hboth => hbehind hboth.1 hboth.2⟩

section Edit

variable {kept stretch : List Char} {e : Edit} {later : Script}

theorem filter_occurrences_kept (hat : (edit kept e stretch later).At front) :
    ((occurrences (byteLen front) (lastFrom none front) kept (stretch ++ later.source)).filter
        fun p => ∀ f ∈ e :: later.edits, ¬ f.Covers p) =
      occurrences (byteLen front) (lastFrom none front) kept (stretch ++ later.source) := by
  obtain ⟨hedit, hlater⟩ := hat
  refine List.filter_eq_self.2 fun p hp => decide_eq_true ?_
  rintro f hf ⟨_, hcovers, _⟩
  obtain ⟨_, hbefore, _⟩ := start_of_mem_occurrences hp
  rw [← byteLen_append] at hbefore
  obtain rfl | hf := List.mem_cons.1 hf
  · rw [hedit.span_eq, Span.behind_start] at hcovers
    omega
  · have hbehind := hlater.le_start hf
    rw [byteLen_append (front ++ kept)] at hbehind
    omega

/-- A removal covers all placeholders that begin where it is made, and a promotion is made where
none begins. -/
theorem filter_occurrences_stretch (hat : (edit kept e stretch later).At front) :
    ((occurrences (byteLen (front ++ kept)) (lastFrom none (front ++ kept)) stretch
        later.source).filter fun p => ∀ f ∈ e :: later.edits, ¬ f.Covers p) = [] := by
  obtain ⟨hedit, _⟩ := hat
  refine List.filter_eq_nil_iff.2 fun p hp => ?_
  rw [decide_eq_true_eq]
  intro hfree
  by_cases hpromotes : e.isPromotion = true
  · obtain ⟨_, _, hspells⟩ := hedit.joining hpromotes
    have hcolon : ':' ∉ stretch := fun hmem => absurd (hspells.isAlpha ':' hmem) (by decide)
    rw [occurrences_eq_nil_of_noColon hcolon] at hp
    exact List.not_mem_nil hp
  · obtain ⟨hfrom, _, _⟩ := start_of_mem_occurrences hp
    have hto := stop_le_of_mem_occurrences hedit.ends.ascii hp
    apply hfree e List.mem_cons_self
    rw [Edit.Covers, hedit.span_eq]
    exact ⟨by simpa using hpromotes, hfrom, hto⟩

theorem filter_occurrences_later (hat : (edit kept e stretch later).At front) :
    ((occurrences (byteLen (front ++ kept ++ stretch)) (lastFrom none (front ++ kept ++ stretch))
        later.source []).filter fun p => ∀ f ∈ e :: later.edits, ¬ f.Covers p) =
      (occurrences (byteLen (front ++ kept ++ stretch)) (lastFrom none (front ++ kept ++ stretch))
        later.source []).filter fun p => ∀ f ∈ later.edits, ¬ f.Covers p := by
  refine List.filter_congr fun p hp => ?_
  obtain ⟨hfrom, _, hnonempty⟩ := start_of_mem_occurrences hp
  have hfree : ¬ e.Covers p := by
    rintro ⟨_, _, hcovers⟩
    rw [hat.1.span_eq, Span.behind_stop, ← byteLen_append] at hcovers
    omega
  simp [hfree]

end Edit

/-- What no removal covers is what begins where the source is kept. -/
theorem map_name_filter_occurrences (hat : script.At front) :
    ((occurrences (byteLen front) (lastFrom none front) script.source []).filter fun p =>
        ∀ e ∈ script.edits, ¬ e.Covers p).map Placeholder.name =
      (script.keptReads (lastFrom none front)).reduceOption.map String.ofList := by
  induction script generalizing front with
  | rest kept =>
    simp only [edits, List.not_mem_nil, false_imp_iff, implies_true, decide_true,
      List.filter_true, map_name_occurrences]
    rfl
  | edit kept e stretch later ih =>
    have hsource : occurrences (byteLen front) (lastFrom none front)
        (edit kept e stretch later).source [] =
          occurrences (byteLen front) (lastFrom none front) kept (stretch ++ later.source) ++
            occurrences (byteLen (front ++ kept)) (lastFrom none (front ++ kept)) stretch
              later.source ++
            occurrences (byteLen (front ++ kept ++ stretch))
              (lastFrom none (front ++ kept ++ stretch)) later.source [] := by
      simp [source, occurrences_append, lastFrom_append, byteLen_append, Nat.add_assoc]
    rw [hsource, edits, List.filter_append, List.filter_append, filter_occurrences_kept hat,
      filter_occurrences_stretch hat, filter_occurrences_later hat, List.append_nil,
      List.map_append, ih hat.2, map_name_occurrences, keptReads, List.reduceOption_append,
      List.map_append, List.append_assoc front, lastFrom_append none front]

end At

end Script

namespace Pruning

/-- The names of the placeholders that no removal covers, in text order. -/
def survivingNames (lacks : String → Bool) (text : List Char) : List String :=
  ((placeholders text).filter fun p => ∀ e ∈ editsOf (steps lacks text), ¬ e.Covers p).map
    Placeholder.name

/-- No edit that pruning carries out changes how a placeholder is read. -/
def Undisturbed (lacks : String → Bool) (text : List Char) : Prop :=
  ∀ e ∈ carriedOut lacks text, ∀ p ∈ placeholders text, ¬ e.Disturbs text p

instance (lacks : String → Bool) (text : List Char) : Decidable (Undisturbed lacks text) :=
  inferInstanceAs (Decidable (∀ e ∈ carriedOut lacks text, _))

variable {lacks : String → Bool} {text : List Char}

/-- Every removal is carried out. -/
theorem covers_carriedOut_iff {p : Placeholder} :
    (∀ e ∈ carriedOut lacks text, ¬ e.Covers p) ↔
      ∀ e ∈ editsOf (steps lacks text), ¬ e.Covers p := by
  constructor
  · intro hfree e he hcovers
    refine hfree e (mem_carriedOut_iff.2 ⟨he, fun f _ htaken => ?_⟩) hcovers
    have hpromotes := htaken.1
    rw [hcovers.1] at hpromotes
    cases hpromotes
  · intro hfree e he
    exact hfree e (mem_carriedOut_iff.1 he).1

theorem placeholderNames_removing {template : String} {script : Script}
    (hsource : script.source = template.toList)
    (hedits : script.edits = carriedOut lacks template.toList) (hat : script.At []) :
    placeholderNames (Pruned.removing lacks template).sql.toList =
      (script.resultReads none).reduceOption.map String.ofList := by
  have hresult : (Pruned.removing lacks template).sql.toList = trim script.result := by
    change (String.ofList (trim (Edit.applyAll (editsOf _) _))).toList = _
    rw [String.toList_ofList, hat.applyAll_eq hsource hedits]
  rw [hresult, placeholderNames_trim, placeholderNames_eq_reads, ← Script.reduceOption_resultReads]

/-- The pruned text has the placeholders that no removal covers just if no edit disturbs one.
Nothing is assumed of the template or of the names that lack a value. -/
theorem placeholderNames_removing_iff (template : String) :
    placeholderNames (Pruned.removing lacks template).sql.toList =
        survivingNames lacks template.toList ↔
      Undisturbed lacks template.toList := by
  obtain ⟨script, hsource, hedits, hat⟩ := exists_script lacks template.toList
  have hsurviving : survivingNames lacks template.toList =
      (script.keptReads none).reduceOption.map String.ofList := by
    have hkept := hat.map_name_filter_occurrences
    simp only [hsource, hedits, covers_carriedOut_iff] at hkept
    rw [survivingNames, placeholders_eq_occurrences]
    exact hkept
  have hinjective : Function.Injective (List.map String.ofList) :=
    List.map_injective_iff.2 fun _ _ => String.ofList_injective
  have hfronted : Script.Fronted [] none := .inl ⟨rfl, rfl⟩
  have hfades : Fades (script.resultReads none) (script.keptReads none) := hat.fades hfronted
  have hreads : script.resultReads none = script.keptReads none ↔ script.Undisturbed [] := by
    have hiff := hat.resultReads_eq_iff hfronted
    rwa [and_iff_left nofun] at hiff
  rw [placeholderNames_removing hsource hedits hat, hsurviving, hinjective.eq_iff,
    hfades.reduceOption_eq_iff, hreads, hat.undisturbed_iff hsource.symm, hedits]
  rfl

end Pruning

end SqlTemplate
