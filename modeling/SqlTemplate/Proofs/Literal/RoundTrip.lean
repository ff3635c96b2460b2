import SqlTemplate.CommandLine.Run
import SqlTemplate.Proofs.Literal.Assignment
import SqlTemplate.Proofs.Literal.Kinds
import SqlTemplate.Proofs.Placeholder.Places
import SqlTemplate.Proofs.Query.Slots

namespace SqlTemplate

/-- Neither a floating-point number nor a blob. -/
def Value.isPlain : Value → Bool
  | float _ | blob _ => false
  | null | bool _ | int _ | text _ => true

section Literals

theorem writeInt_ne_nil (n : Int) : writeInt n ≠ [] := by
  unfold writeInt
  split
  · simp
  · exact Nat.toDigits_ne_nil

theorem sign_or_digit_of_mem_writeInt {n : Int} {c : Char} (hc : c ∈ writeInt n) :
    c = '-' ∨ c.isDigit := by
  have hdigits := List.all_eq_true.1 (all_isDigit_toDigits n.natAbs)
  unfold writeInt at hc
  split at hc
  · obtain hsign | hdigit := List.mem_cons.1 hc
    · exact .inl hsign
    · exact .inr (hdigits c hdigit)
  · exact .inr (hdigits c hc)

namespace Literal

theorem trimmed?_quote (text : List Char) :
    trimmed? (Quoted.quote text) = some (.text (String.ofList text)) := by
  obtain ⟨body, hquote, hbody⟩ := Quoted.unquote?_eq_some_iff.1 (Quoted.unquote?_quote text)
  rw [hquote, hbody]
  exact trimmed?_eq_some_iff.2 (.quoted body)

theorem trimmed?_writeInt (n : Int64) : trimmed? (writeInt n.toInt) = some (.int n) := by
  have hinteger : IsInteger (writeInt n.toInt) n.toInt :=
    readInt?_eq_some_iff.1 (readInt?_writeInt n.toInt)
  exact trimmed?_eq_some_iff.2 (.int hinteger)

end Literal

namespace Value

variable {value : Value}

theorem trimmed?_literalChars (hplain : value.isPlain) :
    Literal.trimmed? value.literalChars = some value := by
  cases value with
  | null => rfl
  | bool b => cases b <;> rfl
  | int n => exact Literal.trimmed?_writeInt n
  | float x => cases hplain
  | text s =>
    rw [literalChars, Literal.trimmed?_quote, String.ofList_toList]
  | blob bytes => cases hplain

/-- No literal begins or ends with a blank. -/
theorem endsFilled_literalChars (hplain : value.isPlain) : EndsFilled value.literalChars := by
  cases value with
  | null => exact ⟨⟨'N', rfl, rfl⟩, ⟨'L', rfl, rfl⟩⟩
  | bool b =>
    cases b with
    | false => exact ⟨⟨'f', rfl, rfl⟩, ⟨'e', rfl, rfl⟩⟩
    | true => exact ⟨⟨'t', rfl, rfl⟩, ⟨'e', rfl, rfl⟩⟩
  | int n =>
    apply EndsFilled.of_not_isBlank (writeInt_ne_nil n.toInt)
    intro c hc
    obtain rfl | hdigit := sign_or_digit_of_mem_writeInt hc
    · rfl
    · apply isBlank_of_isWordChar
      apply isWordChar_of_isNamePart
      simp [isNamePart, hdigit]
  | float x => cases hplain
  | text s =>
    have hlast : (Quoted.quote s.toList).getLast? = some '\'' := by
      simp [Quoted.quote, List.getLast?_cons]
    exact ⟨⟨'\'', rfl, rfl⟩, ⟨'\'', hlast, rfl⟩⟩
  | blob bytes => cases hplain

/-- A literal stands for its value, whatever blanks are around it. -/
theorem ofLiteral_around_literalChars (hplain : value.isPlain) {before after : List Char}
    (hbefore : ∀ c ∈ before, isBlank c) (hafter : ∀ c ∈ after, isBlank c) :
    ofLiteral (before ++ value.literalChars ++ after) = value := by
  rw [ofLiteral, (endsFilled_literalChars hplain).trim_blanks hbefore hafter,
    trimmed?_literalChars hplain, Option.getD_some]

end Value

end Literals

/-- The line that shows a parameter, without the newline that ends it. -/
def Parameter.line (p : Parameter) : String :=
  "  :" ++ p.name ++ " = " ++ p.value.literal

theorem CommandLine.queryText_eq_lines (query : Query) :
    queryText query =
      query.sql ++ "\n" ++ String.join (query.parameters.map fun p => p.line ++ "\n") := rfl

namespace Assignment

theorem parse_line {p : Parameter} (hname : IsName Char.isAlpha p.name.toList)
    (hplain : p.value.isPlain) : parse p.line.toList = .ok ⟨p.name, p.value⟩ := by
  have hline : p.line.toList =
      ([' ', ' '] ++ ':' :: p.name.toList ++ [' ']) ++
        '=' :: ([' '] ++ p.value.literalChars ++ []) := by
    simp [Parameter.line, Value.literal]
  -- The line is split where it should be: a name has no equals sign in it, whatever the value has.
  have hequals : '=' ∉ [' ', ' '] ++ ':' :: p.name.toList ++ [' '] := by
    have hpart : '=' ∉ p.name.toList := hname.not_mem rfl
    simpa using hpart
  have hblank : ∀ c ∈ [' '], isBlank c := List.forall_mem_singleton.2 rfl
  have hblanks : ∀ c ∈ [' ', ' '], isBlank c := List.forall_mem_cons.2 ⟨rfl, hblank⟩
  have hnameOf : nameOf ([' ', ' '] ++ ':' :: p.name.toList ++ [' ']) = .ok p.name := by
    rw [nameOf_around hname hblanks hblank, String.ofList_toList]
  have hliteral : Value.ofLiteral ([' '] ++ p.value.literalChars ++ []) = p.value :=
    Value.ofLiteral_around_literalChars hplain hblank (List.forall_mem_nil _)
  simp only [hline, parse, splitAtEquals?_append _ hequals, hnameOf, hliteral]
  rfl

end Assignment

/-- A parameter of a query bears the name of a placeholder. -/
theorem Draft.isName_of_mem_parameters {draft : Draft} {p : Parameter}
    (hp : p ∈ draft.build.parameters) : IsName Char.isAlpha p.name.toList := by
  obtain ⟨_, hname⟩ := List.mem_filter.1 ((firstOfEachName_sublist _).subset hp)
  obtain ⟨place, hplace, hsame⟩ := List.mem_map.1 (List.contains_iff_mem.1 hname)
  obtain ⟨_, _, name, _, rfl, hat⟩ := mem_placeholders_iff.1 hplace
  obtain ⟨_, _, _, hisName, _⟩ := nameAt?_eq_some_iff.1 hat
  rw [← hsame, Placeholder.at, String.toList_ofList]
  exact hisName

/-- What is printed for a query is its text and a line for each parameter. The line of a parameter
whose value is neither a floating-point number nor a blob is an assignment of the value to the name.
Of such a value, the literal stands for it with any blanks around. -/
theorem printed_parameters_read_back :
    (∀ query : Query, CommandLine.queryText query =
      query.sql ++ "\n" ++ String.join (query.parameters.map fun p => p.line ++ "\n")) ∧
    (∀ (draft : Draft) (p : Parameter), p ∈ draft.build.parameters → p.value.isPlain →
      Assignment.parse p.line.toList = .ok ⟨p.name, p.value⟩) ∧
    ∀ (value : Value) (before after : List Char), value.isPlain → (∀ c ∈ before, isBlank c) →
      (∀ c ∈ after, isBlank c) →
        Value.ofLiteral (before ++ value.literalChars ++ after) = value := by
  refine ⟨CommandLine.queryText_eq_lines, ?_, ?_⟩
  · intro draft p hp hplain
    exact Assignment.parse_line (Draft.isName_of_mem_parameters hp) hplain
  · intro value before after hplain hbefore hafter
    exact Value.ofLiteral_around_literalChars hplain hbefore hafter

/-- A text with quotes at both ends, an equals sign, a newline and blanks in it. -/
theorem printed_parameters_read_back_text :
    let p := Parameter.assigned "a" (.text "'' =\n'x' '") false
    let draft := (Draft.ofTemplate "SELECT * FROM t WHERE a = :a").assign p
    (p ∈ draft.build.parameters ∧ p.value.isPlain ∧
      Assignment.parse p.line.toList = .ok ⟨"a", .text "'' =\n'x' '"⟩) ∧
    ((∀ c ∈ ['\t', ' '], isBlank c) ∧ (∀ c ∈ ['\n'], isBlank c) ∧
      Value.ofLiteral (['\t', ' '] ++ p.value.literalChars ++ ['\n']) = p.value) := by
  intro p draft
  obtain ⟨_, hline, hliteral⟩ := printed_parameters_read_back
  have hp : p ∈ draft.build.parameters := by decide +kernel
  have hbefore : ∀ c ∈ ['\t', ' '], isBlank c :=
    List.forall_mem_cons.2 ⟨rfl, List.forall_mem_singleton.2 rfl⟩
  have hafter : ∀ c ∈ ['\n'], isBlank c := List.forall_mem_singleton.2 rfl
  exact ⟨⟨hp, rfl, hline draft p hp rfl⟩, hbefore, hafter, hliteral p.value _ _ rfl hbefore hafter⟩

end SqlTemplate
