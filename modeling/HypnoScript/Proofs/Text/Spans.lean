/-
# The span of a stretch

A stretch is given by the offset at which it starts and its width.  Its span starts at the position
of the offset and stays on the line on which it starts (`Document.InLine`): if the stretch runs over
the end of that line, it is cut there.  Whatever the offset, there is such a span, for its ends are
in order (`Document.spanAt?_eq_ok`).

Both ends are found by clamping on their own, the start as the position of the offset, the stop as
that of the offset behind the stretch or as the end of the line.  Back in offsets they are what is
to be expected (`Document.offsetAt_stop_spanAt`): the stop stands behind the stretch or at the end
of the line, whichever comes first.  So the span covers the stretch up to the end of its line
(`Document.spanAt_exact`).
-/
import HypnoScript.Proofs.Text.Offsets

namespace HypnoScript

/-- The offset at which the line ends that an offset stands on: that of the next newline, or the end
of the text. -/
def Text.lineEnd (t : Text) (o : Nat) : Nat := o + ((t.drop o).takeWhile (· != '\n')).length

namespace Document

/-! ## 1. A span on a line -/

/-- A span on one line of the document, from one of its columns to another. -/
structure InLine (d : Document) (s : Span) : Prop where
  line_eq : s.stop.line = s.start.line
  line_lt : s.start.line < d.lineCount
  column_le : s.start.column ≤ s.stop.column
  column_le_length : s.stop.column ≤ d.lineLength s.start.line

theorem inLine_onLine {d : Document} {n k : Nat} (hn : n < d.lineCount)
    (hk : k ≤ d.lineLength n) : InLine d (Span.onLine n k 0) :=
  ⟨rfl, hn, Nat.le_refl k, hk⟩

theorem line_positionAt_lt (t : Text) (o : Int) :
    ((ofText t).positionAt o).line < (ofText t).lineCount :=
  line_positionIn_lt (Text.lines_ne_nil t) _

theorem column_positionAt_le (d : Document) (o : Int) :
    (d.positionAt o).column ≤ d.lineLength (d.positionAt o).line := column_positionIn_le _ _

/-- The ends of a stretch are in order, so they are a span. -/
theorem spanAt?_eq_ok (d : Document) (o : Int) (width : Nat) :
    d.spanAt? o width = .ok (d.spanAt o width) := by
  rw [spanAt?, Span.ofEnds_eq_ok_iff]
  exact ⟨rfl, rfl⟩

/-- The stop of a stretch: the position behind it, if that is on the same line, and else the end of
the line. -/
theorem stop_spanAt (d : Document) (o : Int) (width : Nat) :
    (d.spanAt o width).stop = d.positionAt (o + width) ∧
        (d.positionAt (o + width)).line = (d.positionAt o).line ∨
      (d.spanAt o width).stop = ⟨(d.positionAt o).line, d.lineLength (d.positionAt o).line⟩ ∧
        (d.positionAt (o + width)).line ≠ (d.positionAt o).line := by
  change (d.ends o width).2 = _ ∧ _ ∨ (d.ends o width).2 = _ ∧ _
  rw [ends]
  split
  · exact Or.inl ⟨rfl, ‹_›⟩
  · exact Or.inr ⟨rfl, ‹_›⟩

/-- A stretch stops on the line on which it starts. -/
theorem line_stop_spanAt (d : Document) (o : Int) (width : Nat) :
    (d.spanAt o width).stop.line = (d.positionAt o).line := by
  rcases d.stop_spanAt o width with ⟨hstop, hline⟩ | ⟨hstop, -⟩
  · rw [hstop, hline]
  · rw [hstop]

/-- **A stretch that is cut at the end of its line lies on the line**, wherever it starts and
however wide it is: the end of the line is one of the two that the stop is taken from. -/
theorem inLine_spanAt (t : Text) (o : Int) (width : Nat) :
    InLine (ofText t) ((ofText t).spanAt o width) := by
  have hstart : ((ofText t).spanAt o width).start = (ofText t).positionAt o := rfl
  have hline : ((ofText t).spanAt o width).stop.line = ((ofText t).spanAt o width).start.line :=
    (ofText t).line_stop_spanAt o width
  refine ⟨hline, line_positionAt_lt t o, ?_, ?_⟩
  · have hordered := ((ofText t).spanAt o width).ordered
    rw [Position.le_iff, hline] at hordered
    omega
  · rw [hstart]
    rcases (ofText t).stop_spanAt o width with ⟨hstop, hsame⟩ | ⟨hstop, -⟩
    · rw [hstop, ← hsame]
      exact column_positionAt_le _ _
    · exact Nat.le_of_eq (congrArg Position.column hstop)

/-! ## 2. The end of a line -/

variable {t : Text} {o : Nat}

/-- A line with what stands behind it. -/
theorem exists_drop_lineStart {n : Nat} (hn : n < t.lines.length) :
    ∃ l rest, t.drop ((ofText t).lineStart n) = l ++ rest ∧ '\n' ∉ l ∧
      (∀ c ∈ rest.head?, c = '\n') ∧ (ofText t).lineLength n = l.length := by
  have hdrop : t.lines.drop n = t.lines[n] :: t.lines.drop (n + 1) := List.drop_eq_getElem_cons hn
  have hline := Text.no_newline_of_mem_lines t _ (List.getElem_mem hn)
  have hlength : (ofText t).lineLength n = t.lines[n].length :=
    lineLength_of_getElem? (List.getElem?_eq_getElem hn)
  rw [drop_lineStart hn, hdrop]
  by_cases hlast : t.lines.drop (n + 1) = []
  · refine ⟨t.lines[n], [], ?_, hline, by simp, hlength⟩
    rw [hlast, List.append_nil]
    rfl
  · refine ⟨t.lines[n], '\n' :: Text.joinLines (t.lines.drop (n + 1)), ?_, hline, ?_, hlength⟩
    · exact Text.joinLines_cons _ hlast
    · intro c hc
      exact (Option.some.inj hc).symm

/-- **Where a line ends** is told by its start and its length. -/
theorem lineEnd_eq (ho : o ≤ t.length) :
    t.lineEnd o = (ofText t).lineStart ((ofText t).positionAt o).line +
      (ofText t).lineLength ((ofText t).positionAt o).line := by
  have hcolumn := (ofText t).column_positionAt_le o
  have hoffset : o = (ofText t).lineStart ((ofText t).positionAt o).line +
      ((ofText t).positionAt o).column := by
    rw [← offsetAt_eq (line_positionAt_lt t o) hcolumn, offsetAt_positionAt ho]
  obtain ⟨l, rest, hdrop, hl, hrest, hlength⟩ := exists_drop_lineStart (line_positionAt_lt t o)
  rw [hlength] at hcolumn ⊢
  -- What is left of the line behind the offset has no newline in it either.
  have hleft : t.drop o = l.drop ((ofText t).positionAt o).column ++ rest := by
    conv => lhs; rw [hoffset]
    rw [← List.drop_drop, hdrop, List.drop_append_of_le_length hcolumn]
  have hl' : '\n' ∉ l.drop ((ofText t).positionAt o).column := by
    intro h
    exact hl (List.mem_of_mem_drop h)
  rw [Text.lineEnd, hleft, Text.takeWhile_line hl' hrest, List.length_drop]
  omega

theorem lineEnd_le_length (ho : o ≤ t.length) : t.lineEnd o ≤ t.length := by
  have h := lineStartIn_add_length_le (line_positionAt_lt t o)
  rw [ofText, Text.joinLines_lines] at h
  rwa [lineEnd_eq ho]

/-! ## 3. What a span covers -/

/-- The part of the text that a span covers. -/
def textUnder (d : Document) (s : Span) : Text :=
  (d.text.take (d.offsetAt s.stop)).drop (d.offsetAt s.start)

/-- **The stop of a stretch stands behind it, or at the end of its line**, whichever comes first.
The stop is the smaller one of two positions; as both lie in the text, their offsets are in the
same order. -/
theorem offsetAt_stop_spanAt (ho : o ≤ t.length) (width : Nat) :
    (ofText t).offsetAt ((ofText t).spanAt o width).stop = min (o + width) (t.lineEnd o) := by
  have hend := lineEnd_eq ho
  have hle := lineEnd_le_length ho
  -- The position behind the stretch is that of an offset of the text, and stands on some line.
  have hbehind : (ofText t).offsetAt ((ofText t).positionAt ((o : Int) + width)) =
      min (o + width) t.length := by
    have h := offsetAt_positionAt_clamps t ((o : Int) + width)
    omega
  have hline := line_positionAt_lt t ((o : Int) + width)
  have hcolumn := (ofText t).column_positionAt_le ((o : Int) + width)
  have hoffset := offsetAt_eq hline hcolumn
  rcases (ofText t).stop_spanAt o width with ⟨hstop, hsame⟩ | ⟨hstop, hother⟩
  · -- On the same line it is not behind the end of the line.
    rw [hsame] at hoffset hcolumn
    rw [hstop, hbehind]
    omega
  · -- On a line further down it is behind the end of the line.
    have hmono : (ofText t).positionAt o ≤ (ofText t).positionAt ((o : Int) + width) :=
      (ofText t).positionAt_mono (by omega)
    have hlt : ((ofText t).positionAt o).line <
        ((ofText t).positionAt ((o : Int) + width)).line := by
      rw [Position.le_iff] at hmono
      omega
    have hstart : (ofText t).lineStart ((ofText t).positionAt o).line +
        (ofText t).lineLength ((ofText t).positionAt o).line <
          (ofText t).lineStart ((ofText t).positionAt ((o : Int) + width)).line :=
      lineStartIn_add_length_lt hlt hline
    have hcut : (ofText t).offsetAt ((ofText t).spanAt o width).stop = t.lineEnd o := by
      rw [hstop, hend]
      exact offsetAt_eq (line_positionAt_lt t o) (Nat.le_refl _)
    rw [hcut]
    omega

/-- **The span of a stretch is exact.**  At an offset of the text there is a span of any width: it
starts at the position of the offset, lies on that line, and covers the text from the offset to the
end of the stretch or of the line, whichever comes first.  At any other offset there is a span on a
line as well.

The two ends are clamped on their own, so that they are in order is not seen from the offsets; it is
seen from the positions, both of which lie on one line. -/
theorem spanAt_exact (t : Text) (width : Nat) :
    let d := ofText t
    (∀ o : Nat, o ≤ t.length → ∃ s, d.spanAt? o width = .ok s ∧ s.start = d.positionAt o ∧
      d.InLine s ∧ d.textUnder s = (t.take (min (o + width) (t.lineEnd o))).drop o) ∧
    ∀ o : Int, ∃ s, d.spanAt? o width = .ok s ∧ d.InLine s := by
  intro d
  constructor
  · intro o ho
    refine ⟨_, spanAt?_eq_ok d o width, rfl, inLine_spanAt t o width, ?_⟩
    have hstart : d.offsetAt (d.spanAt o width).start = o := offsetAt_positionAt ho
    rw [textUnder, hstart, offsetAt_stop_spanAt ho]
    rfl
  · intro o
    exact ⟨_, spanAt?_eq_ok d o width, inLine_spanAt t o width⟩

/-- Of a stretch that runs over the end of its line only the line is left. -/
theorem spanAt_exact_cut :
    let t := "ab\ncd".toList
    let d := ofText t
    1 ≤ t.length ∧ ∃ s, d.spanAt? 1 5 = .ok s ∧ s.start = d.positionAt 1 ∧ d.InLine s ∧
      d.textUnder s = "b".toList := by
  intro t d
  obtain ⟨s, hs, hstart, hline, hunder⟩ := (spanAt_exact t 5).1 1 (by decide)
  exact ⟨by decide, s, hs, hstart, hline, hunder.trans (by decide)⟩

end Document
end HypnoScript
