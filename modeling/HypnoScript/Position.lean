/-
# Positions and spans

A position is a line and a column, both counted from zero.  Positions are ordered by line, then by
column.  A span runs from one position to another that is not before it; that it does is part of
the type.
-/
namespace HypnoScript

/-- A place in a text: a line and a column, from zero on. -/
structure Position where
  line : Nat
  column : Nat
  deriving DecidableEq, Repr

namespace Position

/-- By line, then by column. -/
protected def le (p q : Position) : Prop :=
  p.line < q.line ∨ p.line = q.line ∧ p.column ≤ q.column

instance : LE Position := ⟨Position.le⟩

instance (p q : Position) : Decidable (p ≤ q) :=
  inferInstanceAs (Decidable (p.line < q.line ∨ p.line = q.line ∧ p.column ≤ q.column))

theorem le_iff {p q : Position} :
    p ≤ q ↔ p.line < q.line ∨ p.line = q.line ∧ p.column ≤ q.column := Iff.rfl

protected theorem le_refl (p : Position) : p ≤ p := Or.inr ⟨rfl, Nat.le_refl _⟩

protected theorem le_trans {p q r : Position} (h : p ≤ q) (h' : q ≤ r) : p ≤ r := by
  rw [le_iff] at *; omega

/-- The position one line further down. -/
def below (p : Position) : Position := ⟨p.line + 1, p.column⟩

end Position

/-- A stretch of text from `start` up to, but not including, `stop`. -/
structure Span where
  start : Position
  stop : Position
  ordered : start ≤ stop
  deriving DecidableEq, Repr

namespace Span

/-- Two ends that are no span, because the start is after the stop. -/
structure Inverted where
  start : Position
  stop : Position
  deriving DecidableEq, Repr

/-- What is wrong with the two ends. -/
def Inverted.message (i : Inverted) : String :=
  s!"range start ({i.start.line}, {i.start.column}) is after end ({i.stop.line}, {i.stop.column})"

/-- The span between two ends, if they are in order. -/
def ofEnds (start stop : Position) : Except Inverted Span :=
  if h : start ≤ stop then .ok ⟨start, stop, h⟩ else .error ⟨start, stop⟩

theorem ofEnds_eq_ok_iff {start stop : Position} {s : Span} :
    ofEnds start stop = .ok s ↔ s.start = start ∧ s.stop = stop := by
  obtain ⟨a, b, h⟩ := s
  by_cases hp : start ≤ stop
  · simp [ofEnds, hp, eq_comm]
  · simp only [ofEnds, hp, dite_false, reduceCtorEq, false_iff]
    rintro ⟨rfl, rfl⟩
    exact hp h

/-- The empty span at a position. -/
def emptyAt (p : Position) : Span := ⟨p, p, p.le_refl⟩

/-- The span of a number of columns on one line. -/
def onLine (line column width : Nat) : Span :=
  ⟨⟨line, column⟩, ⟨line, column + width⟩, Or.inr ⟨rfl, Nat.le_add_right ..⟩⟩

/-- The span from the start of one line to a column of another. -/
def ofLines (line lineCount column : Nat) : Span :=
  ⟨⟨line, 0⟩, ⟨line + lineCount, column⟩, by rw [Position.le_iff]; simp only; omega⟩

end Span
end HypnoScript
