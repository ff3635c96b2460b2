import SqlTemplate.Keyword
import SqlTemplate.Text.Blank
import SqlTemplate.Text.Span

namespace SqlTemplate

/-- The upper bound of `col BETWEEN :lo AND :hi`: a connector, one space and a placeholder. It is no
clause, because no column stands in it. Its span reaches from the connector to the end of the
placeholder. -/
structure UpperBound where
  span : Span
  connector : Connector
  placeholder : String
deriving DecidableEq

namespace UpperBound

/-- Reads an upper bound, behind any blanks, from the beginning of a text, which stands at byte
`offset`. -/
def read? (offset : Nat) (text : List Char) : Option UpperBound :=
  match Connector.take? (text.dropWhile isBlank) with
  | some (connector, keyword, ' ' :: ':' :: rest) =>
    (takeName? isFoldedLetter rest).map fun (placeholder, _) =>
      let start := offset + byteLen (text.takeWhile isBlank)
      { span := ⟨start, start + byteLen (keyword ++ ' ' :: ':' :: placeholder)⟩
        connector
        placeholder := String.ofList placeholder }
  | _ => none

end UpperBound

/-- The upper bound that stands in a text from byte `offset` on. There is none where `offset` lies
beyond the text or within a character. -/
def upperBoundAt? (text : List Char) (offset : Nat) : Option UpperBound := do
  let (_, rest) ← splitAtByte? offset text
  UpperBound.read? offset rest

end SqlTemplate
