/-
# Documents: offsets and positions

A document is a text together with what is read off it again and again: its lines, its masked copy,
the lines of that copy and the regions in which they start.

An offset counts characters from the start of the text, a position gives line and column.  Both
conversions clamp: an offset before the start or behind the end counts as that end, a column behind
the end of its line as the end of the line, and a line behind the last as the last.
-/
import HypnoScript.Masking
import HypnoScript.Position

namespace HypnoScript

/-- A text with its lines and its masked copy. -/
structure Document where
  text : Text
  lines : List Text
  code : Text
  codeLines : List Text
  regions : List Region

namespace Document

/-- The document of a text. -/
def ofText (t : Text) : Document :=
  let m := Mask.of t
  ⟨t, t.lines, m.text, Text.lines m.text, m.regions⟩

/-- The number of lines. -/
def lineCount (d : Document) : Nat := d.lines.length

/-- The number of the last line. -/
def lastLine (d : Document) : Nat := d.lineCount - 1

/-- The length of a line, zero for a line that does not exist. -/
def lineLength (d : Document) (line : Nat) : Nat := (d.lines.getD line []).length

/-! ## 1. From offsets to positions -/

/-- The position of an offset in a text with these lines. -/
def positionIn : List Text → Nat → Position
  | [], _ => ⟨0, 0⟩
  | l :: ls, o =>
    if o ≤ l.length ∨ ls = [] then ⟨0, min o l.length⟩
    else (positionIn ls (o - (l.length + 1))).below

/-- The position of an offset. -/
def positionAt (d : Document) (offset : Int) : Position := positionIn d.lines offset.toNat

theorem column_positionIn_le (ls : List Text) (o : Nat) :
    (positionIn ls o).column ≤ (ls.getD (positionIn ls o).line []).length := by
  fun_induction positionIn ls o with
  | case1 => simp
  | case2 l ls o _ => exact Nat.min_le_right o l.length
  | case3 l ls o h ih => simpa [Position.below] using ih

theorem positionIn_mono (ls : List Text) {o o' : Nat} (h : o ≤ o') :
    positionIn ls o ≤ positionIn ls o' := by
  fun_induction positionIn ls o generalizing o' with
  | case1 => exact Position.le_refl _
  | case2 l ls o ho =>
    rw [positionIn, Position.le_iff]
    split
    · exact Or.inr ⟨rfl, show min o l.length ≤ min o' l.length by omega⟩
    · exact Or.inl (Nat.succ_pos _)
  | case3 l ls o ho ih =>
    have hne : ¬(o' ≤ l.length ∨ ls = []) := by
      rintro (h' | h')
      · exact ho (Or.inl (by omega))
      · exact ho (Or.inr h')
    have := ih (show o - (l.length + 1) ≤ o' - (l.length + 1) by omega)
    rw [positionIn, if_neg hne]
    rw [Position.le_iff] at *
    simp only [Position.below]
    omega

theorem positionAt_mono (d : Document) {o o' : Int} (h : o ≤ o') :
    d.positionAt o ≤ d.positionAt o' := positionIn_mono _ (by omega)

/-! ## 2. From positions to offsets -/

/-- The offset at which a line of these lines starts. -/
def lineStartIn (ls : List Text) (line : Nat) : Nat :=
  (ls.take line).foldr (fun l n => l.length + 1 + n) 0

/-- The offset at which a line starts. -/
def lineStart (d : Document) (line : Nat) : Nat := lineStartIn d.lines line

/-- The offset of a position. -/
def offsetAt (d : Document) (p : Position) : Nat :=
  let line := min p.line d.lastLine
  d.lineStart line + min p.column (d.lineLength line)

/-- The number of the line with this index.  Negative indexes count from the end: the last line has
index -1. -/
def lineIndex? (d : Document) (index : Int) : Option Nat :=
  let line := if index < 0 then index + d.lineCount else index
  if 0 ≤ line ∧ line < d.lineCount then some line.toNat else none

/-! ## 3. Spans -/

/-- The two ends of the stretch of `width` characters from an offset on.  If it runs over the end
of the line it starts on, it is cut there. -/
def ends (d : Document) (offset width : Int) : Position × Position :=
  let start := d.positionAt offset
  let stop := d.positionAt (offset + width)
  (start, if stop.line = start.line then stop else ⟨start.line, d.lineLength start.line⟩)

theorem ends_ordered (d : Document) (offset : Int) (width : Nat) :
    (d.ends offset width).1 ≤ (d.ends offset width).2 := by
  have hmono := d.positionAt_mono (show offset ≤ offset + (width : Int) by omega)
  have hcol := column_positionIn_le d.lines offset.toNat
  simp only [ends]
  split
  · exact hmono
  · simp only [Position.le_iff, lineLength, positionAt]
    exact Or.inr ⟨trivial, hcol⟩

/-- The span of `width` characters from an offset on, cut at the end of its line. -/
def spanAt (d : Document) (offset : Int) (width : Nat) : Span :=
  ⟨_, _, d.ends_ordered offset width⟩

/-- The same for any width: a negative one leads to ends that may be in the wrong order. -/
def spanAt? (d : Document) (offset width : Int) : Except Span.Inverted Span :=
  Span.ofEnds (d.ends offset width).1 (d.ends offset width).2

/-- The empty span at the end of a line. -/
def endOfLine (d : Document) (line : Nat) : Span := Span.onLine line (d.lineLength line) 0

end Document
end HypnoScript
