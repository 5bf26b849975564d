/-
# Offsets and positions as inverses

Every offset of a text has a position of its own, and every position inside the text is that of an
offset (`offsetAt_positionAt_inverse`): from an offset to its position and back leads to the offset,
taken to the nearer end of the text if it lies outside; from a position inside the text to its
offset and back leads to the position; and a greater offset stands further on.

Outside the text the way back clamps the line and the column apart.  That keeps the order of two
positions, with one exception: where both lines count as the last one although they differ, the
columns alone decide, and these may stand the other way round (`offsetAt_le_iff`, `Overshoots`).
-/
import HypnoScript.Proofs.Text.Positions

namespace HypnoScript

/-- The position stands before another: on a line further up, or further left on the same line. -/
def Position.Before (p q : Position) : Prop :=
  p.line < q.line ∨ p.line = q.line ∧ p.column < q.column

theorem Position.before_of_le_of_ne {p q : Position} (h : p ≤ q) (hne : p ≠ q) : p.Before q := by
  rcases Position.le_iff.mp h with hline | ⟨hline, hcolumn⟩
  · exact Or.inl hline
  · refine Or.inr ⟨hline, Nat.lt_of_le_of_ne hcolumn ?_⟩
    intro heq
    obtain ⟨l, c⟩ := p
    obtain ⟨l', c'⟩ := q
    obtain rfl : l = l' := hline
    obtain rfl : c = c' := heq
    exact hne rfl

namespace Document

variable {d : Document} {p q : Position}

/-! ## 1. Where lines start -/

theorem lineStartIn_cons_succ (l : Text) (ls : List Text) (n : Nat) :
    lineStartIn (l :: ls) (n + 1) = l.length + 1 + lineStartIn ls n := rfl

/-- A line ends in front of the place where one further down starts. -/
theorem lineStartIn_add_length_lt {ls : List Text} {m n : Nat} (hmn : m < n) (hn : n < ls.length) :
    lineStartIn ls m + (ls.getD m []).length < lineStartIn ls n := by
  induction ls generalizing m n with
  | nil => exact absurd hn (Nat.not_lt_zero _)
  | cons l ls ih =>
    cases n with
    | zero => exact absurd hmn (Nat.not_lt_zero _)
    | succ n =>
      rw [lineStartIn_cons_succ]
      cases m with
      | zero =>
        show 0 + l.length < l.length + 1 + lineStartIn ls n
        omega
      | succ m =>
        have hrest := ih (Nat.lt_of_succ_lt_succ hmn) (Nat.lt_of_succ_lt_succ hn)
        rw [lineStartIn_cons_succ, List.getD_cons_succ]
        omega

/-- A line ends inside the text. -/
theorem lineStartIn_add_length_le {ls : List Text} {n : Nat} (hn : n < ls.length) :
    lineStartIn ls n + (ls.getD n []).length ≤ (Text.joinLines ls).length := by
  induction ls generalizing n with
  | nil => exact absurd hn (Nat.not_lt_zero _)
  | cons l ls ih =>
    by_cases hls : ls = []
    · subst hls
      obtain rfl : n = 0 := Nat.lt_one_iff.mp hn
      exact Nat.le_of_eq (Nat.zero_add _)
    · rw [Text.joinLines_cons l hls, List.length_append, List.length_cons]
      cases n with
      | zero =>
        show 0 + l.length ≤ _
        omega
      | succ n =>
        have hrest := ih (Nat.lt_of_succ_lt_succ hn)
        rw [lineStartIn_cons_succ, List.getD_cons_succ]
        omega

/-- The position of a place on a line is that line and the column there. -/
theorem positionIn_lineStartIn_add {ls : List Text} {n c : Nat} (hn : n < ls.length)
    (hc : c ≤ (ls.getD n []).length) : positionIn ls (lineStartIn ls n + c) = ⟨n, c⟩ := by
  induction ls generalizing n with
  | nil => exact absurd hn (Nat.not_lt_zero _)
  | cons l ls ih =>
    cases n with
    | zero =>
      have hc : c ≤ l.length := hc
      have hstart : lineStartIn (l :: ls) 0 + c = c := Nat.zero_add c
      rw [hstart, positionIn, if_pos (Or.inl hc), Nat.min_eq_left hc]
    | succ n =>
      have hn : n < ls.length := Nat.lt_of_succ_lt_succ hn
      have hbelow : ¬(lineStartIn (l :: ls) (n + 1) + c ≤ l.length ∨ ls = []) := by
        rw [lineStartIn_cons_succ]
        rintro (hle | rfl)
        · omega
        · exact Nat.not_lt_zero _ hn
      have hrest : lineStartIn (l :: ls) (n + 1) + c - (l.length + 1) = lineStartIn ls n + c := by
        rw [lineStartIn_cons_succ]
        omega
      rw [positionIn, if_neg hbelow, hrest, ih hn hc]
      rfl

/-! ## 2. Clamping -/

/-- An offset behind the end counts as the end. -/
theorem positionIn_min_length (t : Text) (o : Nat) :
    positionIn t.lines (min o t.length) = positionIn t.lines o := by
  induction t using Text.line_induction generalizing o with
  | last l hl =>
    have hline (n : Nat) : positionIn [l] n = ⟨0, min n l.length⟩ := if_pos (Or.inr rfl)
    rw [Text.lines_of_no_newline hl, hline, hline, Nat.min_assoc, Nat.min_self]
  | line l t hl ih =>
    have hlength : (l ++ '\n' :: t).length = l.length + (t.length + 1) := by
      rw [List.length_append, List.length_cons]
    rw [Text.lines_append_newline, Text.lines_of_no_newline hl, List.singleton_append, hlength]
    by_cases ho : o ≤ l.length
    · rw [Nat.min_eq_left (by omega)]
    · have hne (n : Nat) (hn : ¬ n ≤ l.length) : ¬(n ≤ l.length ∨ t.lines = []) := by
        rintro (h | h)
        · exact hn h
        · exact Text.lines_ne_nil t h
      have hrest : min o (l.length + (t.length + 1)) - (l.length + 1) =
          min (o - (l.length + 1)) t.length := by
        omega
      rw [positionIn, positionIn, if_neg (hne _ (by omega)), if_neg (hne _ ho), hrest, ih]

/-- From an offset to its position and back: an offset outside the text is taken to its nearer
end. -/
theorem offsetAt_positionAt_clamps (t : Text) (o : Int) :
    ((ofText t).offsetAt ((ofText t).positionAt o) : Int) = max 0 (min o t.length) := by
  have hclamp : (ofText t).positionAt o = (ofText t).positionAt (min o.toNat t.length : Nat) :=
    (positionIn_min_length t o.toNat).symm
  rw [hclamp, offsetAt_positionAt (Nat.min_le_right _ _)]
  omega

/-- The offset of a position is one of the text, wherever the position is. -/
theorem offsetAt_le_length (t : Text) (p : Position) : (ofText t).offsetAt p ≤ t.length := by
  have hpos : 0 < t.lines.length := List.length_pos_iff.mpr (Text.lines_ne_nil t)
  have hline : min p.line (ofText t).lastLine < t.lines.length :=
    Nat.lt_of_le_of_lt (Nat.min_le_right _ _) (Nat.sub_one_lt_of_lt hpos)
  have hend := lineStartIn_add_length_le hline
  rw [Text.joinLines_lines] at hend
  exact Nat.le_trans (Nat.add_le_add_left (Nat.min_le_right _ _) _) hend

/-- The offset of a position inside the text is its column behind the start of its line. -/
theorem offsetAt_eq (hline : p.line < d.lineCount) (hcolumn : p.column ≤ d.lineLength p.line) :
    d.offsetAt p = d.lineStart p.line + p.column := by
  have hlast : p.line ≤ d.lastLine := Nat.le_sub_one_of_lt hline
  simp only [offsetAt, Nat.min_eq_left hlast, Nat.min_eq_left hcolumn]

/-- A position inside the text is the position of its offset. -/
theorem positionAt_offsetAt (hline : p.line < d.lineCount)
    (hcolumn : p.column ≤ d.lineLength p.line) : d.positionAt (d.offsetAt p) = p := by
  rw [offsetAt_eq hline hcolumn]
  exact positionIn_lineStartIn_add hline hcolumn

/-- **Offsets and positions are inverse to each other.**  The offset of the position of an offset is
that offset, taken to the nearer end of the text if it lies outside; the position of the offset of a
position inside the text is that position; and of two offsets in the text the smaller one has the
position that stands before the other.

The way there walks down the lines and takes each one off with its newline, the way back adds them
up again.  The two agree at the ends of lines because a newline is part of the line that it ends: in
front of it is the last column of that line, and behind it the first one of the next. -/
theorem offsetAt_positionAt_inverse (t : Text) :
    let d := ofText t
    (∀ o : Int, (d.offsetAt (d.positionAt o) : Int) = max 0 (min o t.length)) ∧
    (∀ p : Position, p.line < d.lineCount → p.column ≤ d.lineLength p.line →
      d.positionAt (d.offsetAt p) = p) ∧
    ∀ o o' : Int, 0 ≤ o → o < o' → o' ≤ t.length →
      (d.positionAt o).Before (d.positionAt o') := by
  intro d
  refine ⟨offsetAt_positionAt_clamps t, fun p => positionAt_offsetAt, ?_⟩
  intro o o' h0 hlt hlength
  have hle : d.positionAt o ≤ d.positionAt o' := d.positionAt_mono (Int.le_of_lt hlt)
  refine Position.before_of_le_of_ne hle ?_
  -- The way back tells the two offsets apart.
  intro heq
  have hback : ((d.offsetAt (d.positionAt o) : Nat) : Int) = d.offsetAt (d.positionAt o') := by
    rw [heq]
  rw [offsetAt_positionAt_clamps t o, offsetAt_positionAt_clamps t o'] at hback
  omega

/-- The end of the first line and the start of the second are two positions, one behind the
other. -/
theorem offsetAt_positionAt_inverse_lines :
    let t := "ab\ncd".toList
    let d := ofText t
    (1 < d.lineCount ∧ 2 ≤ d.lineLength 1 ∧ d.positionAt (d.offsetAt ⟨1, 2⟩) = ⟨1, 2⟩) ∧
      ((0 : Int) ≤ 2 ∧ (2 : Int) < 3 ∧ (3 : Int) ≤ t.length ∧
        (d.positionAt 2).Before (d.positionAt 3)) := by
  intro t d
  have hline : 1 < d.lineCount := by decide
  have hcolumn : 2 ≤ d.lineLength 1 := by decide
  have hlength : (3 : Int) ≤ t.length := by decide
  obtain ⟨-, hposition, hbefore⟩ := offsetAt_positionAt_inverse t
  exact ⟨⟨hline, hcolumn, hposition ⟨1, 2⟩ hline hcolumn⟩, by decide, by decide, hlength,
    hbefore 2 3 (by decide) (by decide) hlength⟩

/-! ## 3. The order of positions -/

/-- Two positions whose lines both count as the last one although they differ, so that the columns
alone are compared, and the first one is further right. -/
def Overshoots (d : Document) (p q : Position) : Prop :=
  d.lastLine ≤ p.line ∧ p.line < q.line ∧
    min q.column (d.lineLength d.lastLine) < min p.column (d.lineLength d.lastLine)

theorem offsetAt_lt_of_lines (h : min p.line d.lastLine < min q.line d.lastLine) :
    d.offsetAt p < d.offsetAt q := by
  have hlast : min q.line d.lastLine < d.lines.length := by
    unfold lastLine lineCount at h ⊢
    omega
  have hstart := lineStartIn_add_length_lt h hlast
  have hcolumn := Nat.min_le_right p.column (d.lineLength (min p.line d.lastLine))
  simp only [offsetAt, lineStart]
  unfold lineLength at hcolumn ⊢
  omega

/-- **Clamping keeps the order of two positions**, unless they overshoot.  Inside the text offsets
are ordered as positions are.  Line and column are clamped one after the other, each in an
order-preserving way; but on two lines that are both taken for the last one, the greater line no
longer outweighs the column. -/
theorem offsetAt_le_iff (h : p ≤ q) : d.offsetAt p ≤ d.offsetAt q ↔ ¬ d.Overshoots p q := by
  unfold Overshoots
  rcases Position.le_iff.mp h with hline | ⟨hline, hcolumn⟩
  · by_cases hlast : d.lastLine ≤ p.line
    · -- Both lines count as the last one, and the columns are compared there.
      have hp : min p.line d.lastLine = d.lastLine := Nat.min_eq_right hlast
      have hq : min q.line d.lastLine = d.lastLine := by omega
      simp only [offsetAt, hp, hq]
      omega
    · have hlt : d.offsetAt p < d.offsetAt q := offsetAt_lt_of_lines (by omega)
      exact iff_of_true (Nat.le_of_lt hlt) fun hover => hlast hover.1
  · simp only [offsetAt, hline]
    omega

end Document
end HypnoScript
