/-
# Edits

An edit puts a new text in the place of a span.  Several edits are applied at once: all spans refer
to the text as it was.  They are taken from the last to the first, ordered by start, by end and by
their place in the list, so that insertions at one place end up in the order of the list.  Edits
that overlap are refused.
-/
import HypnoScript.Document

namespace HypnoScript

/-- A new text for a span. -/
structure Edit where
  range : Span
  newText : Text
  deriving DecidableEq, Repr

namespace Edit

/-- An edit that puts a text in at a position. -/
def insertAt (p : Position) (newText : Text) : Edit := ⟨Span.emptyAt p, newText⟩

/-- Why a list of edits is refused: an edit that starts at an offset runs into the next one. -/
structure Overlap where
  offset : Nat
  deriving DecidableEq, Repr

/-- What is wrong with the edits. -/
def Overlap.message (o : Overlap) : String := s!"Overlapping edits at offset {o.offset}"

/-- A new text for the characters from one offset up to another. -/
structure Splice where
  start : Nat
  stop : Nat
  newText : Text
  deriving DecidableEq, Repr

/-- The splice that an edit comes to in a document. -/
def splice (d : Document) (e : Edit) : Splice :=
  ⟨d.offsetAt e.range.start, d.offsetAt e.range.stop, e.newText⟩

/-- The order of splices: by start, then by end. -/
def Splice.precedes (a b : Splice) : Bool :=
  a.start < b.start || (a.start == b.start && a.stop ≤ b.stop)

/-- The text with a splice made. -/
def Splice.apply (s : Splice) (t : Text) : Text := t.take s.start ++ s.newText ++ t.drop s.stop

/-- The text with some splices made, the last one first.  None may reach behind `limit`, the start
of the one made before it. -/
def applySplices (t : Text) (limit : Option Nat) : List Splice → Except Overlap Text
  | [] => .ok t
  | s :: rest =>
    if limit.any (· < s.stop) then .error ⟨s.start⟩
    else applySplices (s.apply t) (some s.start) rest

/-- The text with the edits made. -/
def applyAll (t : Text) (edits : List Edit) : Except Overlap Text :=
  let d := Document.ofText t
  applySplices t none ((edits.map (splice d)).mergeSort Splice.precedes).reverse

end Edit
end HypnoScript
