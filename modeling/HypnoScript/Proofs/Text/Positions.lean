/-
# Offsets and positions

An offset cuts a text in two, and the position that belongs to it is where the front part ends
(`positionIn_append`): its line is the number of that part's last line, its column the length of
that line (`Text.endOf`).  What stands behind the cut does not matter, so along a line the position
moves on with the offset (`Text.endOf_append`).

The way back from the position leads to the offset again (`offsetAt_positionAt`), and behind the
offset at which a line starts stand the line and those below it (`drop_lineStart`).
-/
import HypnoScript.Document
import HypnoScript.Proofs.Text.Lines

namespace HypnoScript

/-- The position at which a text ends. -/
def Text.endOf (p : Text) : Position :=
  ⟨p.lines.length - 1, (p.lines.getLast (Text.lines_ne_nil p)).length⟩

theorem Text.endOf_of_no_newline {p : Text} (hp : '\n' ∉ p) : p.endOf = ⟨0, p.length⟩ := by
  simp [endOf, lines_of_no_newline hp]

theorem Text.endOf_append_newline (l p : Text) :
    (l ++ '\n' :: p).endOf = ⟨l.endOf.line + 1 + p.endOf.line, p.endOf.column⟩ := by
  have hl := List.length_pos_iff.mpr (lines_ne_nil l)
  have hp := List.length_pos_iff.mpr (lines_ne_nil p)
  simp only [endOf, lines_append_newline, List.length_append, List.getLast_append_of_ne_nil _
    (lines_ne_nil p), Position.mk.injEq, and_true]
  omega

/-- **Along a line the end moves on by columns.** -/
theorem Text.endOf_append (p : Text) {u : Text} (hu : '\n' ∉ u) :
    (p ++ u).endOf = ⟨p.endOf.line, p.endOf.column + u.length⟩ := by
  induction p using line_induction with
  | last l hl =>
    rw [endOf_of_no_newline hl, endOf_of_no_newline (by simp [hl, hu]), List.length_append]
  | line l p hl ih =>
    rw [List.append_assoc, List.cons_append, endOf_append_newline, endOf_append_newline, ih]

namespace Document

/-! ## 1. The position of an offset -/

/-- Lines of the same lengths have offsets at the same positions. -/
theorem positionIn_congr : ∀ {ls ls' : List Text} (o : Nat),
    ls.map List.length = ls'.map List.length → positionIn ls o = positionIn ls' o
  | [], [], _, _ => rfl
  | l :: ls, l' :: ls', o, h => by
    simp only [List.map_cons, List.cons.injEq] at h
    have hnil : ls = [] ↔ ls' = [] := by
      rw [← List.map_eq_nil_iff (f := List.length), h.2, List.map_eq_nil_iff]
    rw [positionIn, positionIn, h.1, positionIn_congr _ h.2]
    simp only [hnil]

theorem line_positionIn_lt {ls : List Text} (h : ls ≠ []) (o : Nat) :
    (positionIn ls o).line < ls.length := by
  fun_induction positionIn ls o with
  | case1 => exact absurd rfl h
  | case2 => exact Nat.succ_pos _
  | case3 l ls o ho ih => exact Nat.succ_lt_succ (ih fun e => ho (Or.inr e))

/-- **An offset is where the text in front of it ends**, whatever stands behind it.  Line starts
further on are not looked at. -/
theorem positionIn_append (p q : Text) :
    positionIn (Text.lines (p ++ q)) p.length = p.endOf := by
  induction p using Text.line_induction with
  | last l hl =>
    obtain ⟨m, ms, hq⟩ := List.exists_cons_of_ne_nil (Text.lines_ne_nil q)
    rw [Text.lines_append_of_no_newline hl hq, positionIn, if_pos (Or.inl (by simp)),
      Text.endOf_of_no_newline hl]
    simp
  | line l p hl ih =>
    have hne : ¬((l ++ '\n' :: p).length ≤ l.length ∨ Text.lines (p ++ q) = []) := by
      simp [Text.lines_ne_nil]
    rw [List.append_assoc, List.cons_append, Text.lines_append_newline,
      Text.lines_of_no_newline hl, List.singleton_append, positionIn, if_neg hne]
    have hsub : (l ++ '\n' :: p).length - (l.length + 1) = p.length := by simp; omega
    rw [hsub, ih, Text.endOf_append_newline, Text.endOf_of_no_newline hl]
    simp [Position.below, Nat.add_comm]

/-! ## 2. The offset of a position -/

/-- A line that there is has the length that it has. -/
theorem lineLength_of_getElem? {d : Document} {n : Nat} {l : Text} (h : d.lines[n]? = some l) :
    d.lineLength n = l.length := by
  rw [lineLength, List.getD_eq_getElem?_getD, h]
  rfl

/-- The line on which a text ends starts where its columns are counted from. -/
theorem lineStartIn_endOf (p q : Text) :
    lineStartIn (Text.lines (p ++ q)) p.endOf.line + p.endOf.column = p.length := by
  induction p using Text.line_induction with
  | last l hl =>
    rw [Text.endOf_of_no_newline hl]
    simp [lineStartIn]
  | line l p hl ih =>
    rw [List.append_assoc, List.cons_append, Text.lines_append_newline,
      Text.lines_of_no_newline hl, List.singleton_append, Text.endOf_append_newline,
      Text.endOf_of_no_newline hl, Nat.zero_add, Nat.add_comm 1, lineStartIn,
      List.take_succ_cons, List.foldr_cons, ← lineStartIn]
    simp only [List.length_append, List.length_cons]
    omega

/-- The position of an offset is the end of the text in front of it. -/
theorem positionAt_append (p q : Text) : (ofText (p ++ q)).positionAt p.length = p.endOf :=
  positionIn_append p q

/-- **The offset of the position of an offset** is the offset again, if it is one of the text: the
line of the position starts where the front part of the text has its last line, whose length is the
column. -/
theorem offsetAt_positionAt {t : Text} {o : Nat} (h : o ≤ t.length) :
    (ofText t).offsetAt ((ofText t).positionAt o) = o := by
  obtain ⟨p, q, rfl, rfl⟩ : ∃ p q, t = p ++ q ∧ p.length = o :=
    ⟨t.take o, t.drop o, (List.take_append_drop o t).symm, List.length_take_of_le h⟩
  have hline : p.endOf.line ≤ (ofText (p ++ q)).lastLine := by
    rw [← positionAt_append p q]
    exact Nat.le_sub_one_of_lt (line_positionIn_lt (Text.lines_ne_nil _) _)
  have hcolumn : p.endOf.column ≤ (ofText (p ++ q)).lineLength p.endOf.line := by
    rw [← positionAt_append p q]
    exact column_positionIn_le _ _
  rw [positionAt_append, offsetAt, Nat.min_eq_left hline, Nat.min_eq_left hcolumn]
  exact lineStartIn_endOf p q

/-- Behind the start of a line stand the line and those below it. -/
theorem drop_lineStart {t : Text} {n : Nat} (h : n < t.lines.length) :
    t.drop ((ofText t).lineStart n) = Text.joinLines (t.lines.drop n) := by
  have key : ∀ {ls : List Text} {n : Nat}, n < ls.length →
      (Text.joinLines ls).drop (lineStartIn ls n) = Text.joinLines (ls.drop n) := by
    intro ls
    induction ls with
    | nil => exact fun h => absurd h (Nat.not_lt_zero _)
    | cons l ls ih =>
      intro n hn
      cases n with
      | zero => rfl
      | succ n =>
        have hn : n < ls.length := Nat.lt_of_succ_lt_succ hn
        have hstart : lineStartIn (l :: ls) (n + 1) = l.length + (lineStartIn ls n + 1) := by
          simp only [lineStartIn, List.take_succ_cons, List.foldr_cons]
          omega
        rw [Text.joinLines_cons l (List.ne_nil_of_length_pos (Nat.zero_lt_of_lt hn)), hstart,
          List.drop_length_add_append, List.drop_succ_cons, ih hn, List.drop_succ_cons]
  have ht := key h
  rwa [Text.joinLines_lines] at ht

end Document
end HypnoScript
