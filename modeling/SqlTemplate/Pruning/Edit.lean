import SqlTemplate.Keyword
import SqlTemplate.Text.Span

namespace SqlTemplate

/-- A change to one stretch of a text: it is removed, or the connector there becomes `WHERE`. All
edits speak of the unedited text. -/
inductive Edit where
  /-- Leaves the stretch out. -/
  | remove (span : Span)
  /-- Writes `WHERE` in place of the stretch. -/
  | promote (span : Span)
deriving DecidableEq

namespace Edit

def span : Edit → Span
  | remove span => span
  | promote span => span

def isPromotion : Edit → Bool
  | remove _ => false
  | promote _ => true

/-- What is written in place of the stretch. -/
def replacement : Edit → List Char
  | remove _ => []
  | promote _ => Connector.where_.letters

/-- Whether one edit may be carried out before another: it starts further left, or in the same place
and is not a promotion beside a removal. A removal that starts at a promoted connector takes the
connector with it. -/
def mayPrecede (e f : Edit) : Bool :=
  e.span.start < f.span.start ||
    (e.span.start == f.span.start && (!e.isPromotion || f.isPromotion))

/-- Puts an edit in front of the first one that it may precede. -/
def insert (e : Edit) : List Edit → List Edit
  | [] => [e]
  | f :: rest => if e.mayPrecede f then e :: f :: rest else f :: insert e rest

/-- Sorts edits. Those that start in the same place keep their order, but for removals, which come
before promotions. -/
def sort : List Edit → List Edit
  | [] => []
  | e :: rest => insert e (sort rest)

theorem insert_perm (e : Edit) (edits : List Edit) : (insert e edits).Perm (e :: edits) := by
  induction edits with
  | nil => exact .refl _
  | cons f rest ih =>
    unfold insert
    split
    · exact .refl _
    · exact (ih.cons f).trans (.swap e f rest)

/-- Sorting loses no edit and adds none. -/
theorem sort_perm (edits : List Edit) : (sort edits).Perm edits := by
  induction edits with
  | nil => exact .refl _
  | cons e rest ih => exact (insert_perm e (sort rest)).trans (ih.cons e)

/-- Copies a text that begins at byte `position` and carries out sorted edits. An edit that starts
in a part already left out is passed over. -/
def copy : List Edit → Nat → List Char → List Char
  | [], _, text => text
  | e :: rest, position, text =>
    if e.span.start < position then
      copy rest position text
    else
      let kept := splitAtByte (e.span.start - position) text
      let dropped := splitAtByte (e.span.stop - e.span.start) kept.2
      kept.1 ++ e.replacement ++ copy rest e.span.stop dropped.2

/-- Carries out edits on a text, in one copy from left to right and in the order of their places. -/
def applyAll (edits : List Edit) (text : List Char) : List Char :=
  copy (sort edits) 0 text

end Edit

end SqlTemplate
