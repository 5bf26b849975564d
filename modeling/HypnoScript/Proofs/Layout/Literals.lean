/-
# Layout does not change literals

The closed literals of a text that is laid out are those of the text, in their order, and all that
changes in them is that carriage returns in front of newlines are dropped (`format_literals`).

Layout keeps the strokes of a line but for some at its end (`KeepsStrokes`).  Three things have to
keep out of the literals of a line for that:

* spaces are put in and taken out in code only (`strokes_spaced`);
* a line is cut at its end only where no literal goes on in the next one, but for carriage returns;
* lines that start inside of a literal stay as they are.

What is lost at the end of the last line belongs to a literal that is not closed.
-/
import HypnoScript.Proofs.Layout.Text
import HypnoScript.Proofs.Masking.Literals

namespace HypnoScript

open Mask Spacing
open Text (Gap)

/-! ## 1. Spacing -/

namespace Spacing

/-- The strokes of some cells. -/
def cellStrokes (inside : Bool) (cs : List Cell) : List Stroke :=
  strokes inside (cs.map fun c => (c.raw, c.code))

/-- A masked copy in which nothing is seen of literals but their quotation marks. -/
inductive Veiled : Bool → Text → Prop
  | nil (inside : Bool) : Veiled inside []
  | mark {inside : Bool} {ms : Text} (h : Veiled (!inside) ms) : Veiled inside ('"' :: ms)
  | outside {m : Char} {ms : Text} (hm : m ≠ '"') (h : Veiled false ms) : Veiled false (m :: ms)
  | inside {m : Char} {ms : Text} (hm : m ≠ '"') (hs : ¬ Solid m) (h : Veiled true ms) :
    Veiled true (m :: ms)

theorem Veiled.uncons {inside : Bool} {m : Char} {ms : Text} (h : Veiled inside (m :: ms)) :
    (inside = true → ¬ Solid m) ∧ Veiled (if m = '"' then !inside else inside) ms := by
  cases h with
  | mark h =>
    rw [if_pos rfl]
    exact ⟨fun _ => not_solid_quote, h⟩
  | outside hm h =>
    rw [if_neg hm]
    exact ⟨fun h => absurd h Bool.false_ne_true, h⟩
  | inside hm hs h =>
    rw [if_neg hm]
    exact ⟨fun _ => hs, h⟩

/-- **The scan veils literals**: between two quotation marks that are shown, one of which opens what
the other one closes, it shows nothing but blanks. -/
theorem veiled_scan (r : Region) (t : Text) : Veiled (r == .string) (scan r t).text := by
  induction r, t using scan_induction with
  | nil r =>
    rw [scan_nil]
    exact .nil _
  | newline r cs ih =>
    have hblank : ¬ Solid '\n' := fun h => absurd h.1 (by decide)
    rw [scan_newline, text_pushLine]
    cases r with
    | string => exact .inside (by decide) hblank ih
    | code | lineComment | blockComment => exact .outside (by decide) ih
  | openString cs ih | closeString cs ih => exact .mark ih
  | openLine cs ih | openBlock cs ih | closeBlock cs ih =>
    exact .outside (by decide) (.outside (by decide) ih)
  | code c cs hn hq ho ih =>
    rw [scan_code hn hq ho]
    exact .outside hq ih
  | escape c cs hn ih =>
    rw [scan_escape hn]
    exact .inside (by decide) not_solid_space (.inside (hide_ne_mark c) (not_solid_hide c) ih)
  | string c cs hn hq he ih =>
    rw [scan_string hn hq he]
    exact .inside (hide_ne_mark c) (not_solid_hide c) ih
  | lineComment c cs hn ih =>
    rw [scan_lineComment hn]
    exact .outside (hide_ne_mark c) ih
  | blockComment c cs hn hc ih =>
    rw [scan_blockComment hn hc]
    exact .outside (hide_ne_mark c) ih

/-- Out of a literal no terminator is reached over blanks alone. -/
theorem reachesTerminator_of_veiled {cs : List Cell} (hs : AllSound cs)
    (h : Veiled true (cs.map Cell.code)) : reachesTerminator cs = false := by
  induction cs with
  | nil => rfl
  | cons c cs ih =>
    obtain ⟨hc, hcs⟩ := h.uncons
    have hterminator : c.code ≠ ';' := by
      intro hcode
      refine hc rfl ?_
      rw [hcode]
      exact ⟨by decide, by decide⟩
    rw [reachesTerminator, beq_eq_false_iff_ne.mpr hterminator, Bool.false_or]
    by_cases hmark : c.code = '"'
    · have hraw : c.raw = '"' := (hs.head.code_eq_raw (hmark ▸ by decide)).symm.trans hmark
      rw [hraw]
      rfl
    · rw [if_neg hmark] at hcs
      rw [ih hs.tail hcs, Bool.and_false]

theorem cellStrokes_cons (inside : Bool) (c : Cell) (cs : List Cell) :
    cellStrokes inside (c :: cs) =
      if c.code = '"' then .mark :: cellStrokes (!inside) cs
      else if inside then .char c.raw :: cellStrokes inside cs
      else cellStrokes inside cs := rfl

/-- Behind a cell strokes go on inside of a literal or not. -/
theorem cellStrokes_cons_congr {inside : Bool} (c : Cell) {cs ds : List Cell}
    (h : cellStrokes (if c.code = '"' then !inside else inside) cs =
      cellStrokes (if c.code = '"' then !inside else inside) ds) :
    cellStrokes inside (c :: cs) = cellStrokes inside (c :: ds) := by
  rw [cellStrokes_cons, cellStrokes_cons]
  by_cases hmark : c.code = '"'
  · rw [if_pos hmark] at h
    rw [if_pos hmark, if_pos hmark, h]
  · rw [if_neg hmark] at h
    rw [if_neg hmark, if_neg hmark, h]

/-- **Spacing does not change the strokes of a line.**  A space that is put in would be a stroke
only inside of a literal.  There neither cell at the cut is shown as code, and one would have to be.
Nor is a blank inside of a literal taken out, as no terminator can be reached from there. -/
theorem strokes_spaced {cs : List Cell} : ∀ {before : List Cell} {inside : Bool}, AllSound cs →
    Veiled inside (cs.map Cell.code) → (inside = true → Quiet before) →
    cellStrokes inside (spaced before cs) = cellStrokes inside cs := by
  induction cs with
  | nil =>
    intro before inside _ _ _
    rfl
  | cons c cs ih =>
    intro before inside hs hveiled hquiet
    obtain ⟨hc, hcs⟩ := hveiled.uncons
    have hnext : (if c.code = '"' then !inside else inside) = true → Quiet (c :: before) := by
      intro hinside
      refine Quiet.cons hs.head ?_ before
      split at hinside
      · rename_i hmark
        rw [hmark]
        exact not_solid_quote
      · exact hc hinside
    have ih := ih hs.tail hcs hnext
    cases step_spaced before hs with
    | keep _ _ eq =>
      rw [eq]
      exact cellStrokes_cons_congr c ih
    | part b bs front missing eq =>
      -- Inside of a literal neither cell could be the reason.
      have houtside : inside = false := by
        refine Bool.eq_false_iff.mpr fun hinside => ?_
        obtain ⟨hb, hsolid⟩ := hquiet hinside b bs front
        rcases missing.solid hb hs.head with h | h
        · exact hsolid h
        · exact hc hinside h
      subst houtside
      rw [eq, cellStrokes_cons, gapCell]
      exact cellStrokes_cons_congr c ih
    | erase gap reaches _ _ _ _ _ _ eq =>
      have hmark : c.code ≠ '"' := by
        intro hmark
        have hblank := hs.head.code_blank (isBlank_of_isGapChar gap)
        rw [hmark] at hblank
        exact absurd hblank (by decide)
      rw [if_neg hmark] at ih hcs
      have houtside : inside = false := by
        refine Bool.eq_false_iff.mpr fun hinside => ?_
        rw [hinside] at hcs
        rw [reachesTerminator_of_veiled hs.tail hcs] at reaches
        cases reaches
      rw [eq, ih, cellStrokes_cons, if_neg hmark, houtside]
      rfl

/-- The strokes of a line are those of its cells. -/
theorem IsLine.strokes {cs : List Cell} (h : IsLine cs) :
    strokesIn .code (cs.map Cell.raw) = cellStrokes false cs := by
  rw [strokesIn, ← h.code, List.zip_map', cellStrokes]
  rfl

end Spacing

/-! ## 2. One line -/

namespace Layout

/-- What layout keeps of the strokes of a line: all but some at its end, which belong to a literal
that goes on there, and are carriage returns if it goes on in the next line.  No carriage return is
left at the end. -/
structure KeepsStrokes (r : Region) (l out : Text) (e : Bool) (lost : Text) : Prop where
  strokes : strokesIn r l = strokesIn r out ++ lost.map .char
  inside : lost ≠ [] → r.behind l = .string
  returns : e = true → ∀ c ∈ lost, c = '\r'
  last : ∀ c ∈ out.getLast?, c ≠ '\r'

variable {dialect : Dialect} {level : Nat} {r : Region} {l : Text} {e : Bool}

/-- Blanks that are cut off at the end are strokes only inside of a literal. -/
theorem exists_lost {s : Text} (hs : Gap s) (r : Region) (p : Text) :
    ∃ lost : Text, strokesIn r (p ++ s) = strokesIn r p ++ lost.map .char ∧ lost ⊆ s ∧
      (lost ≠ [] → r.behind (p ++ s) = .string) := by
  rw [strokesIn_append_gap hs, (scan_append_gap hs r p).2]
  cases hinside : r.behind p == .string with
  | true => exact ⟨s, rfl, List.Subset.refl s, fun _ => beq_iff_eq.mp hinside⟩
  | false => exact ⟨[], rfl, List.nil_subset s, fun h => absurd rfl h⟩

/-- The strokes of a line without the carriage returns at its end. -/
theorem exists_lost_chomp (r : Region) (l : Text) :
    ∃ lost : Text, strokesIn r l = strokesIn r (chomp l) ++ lost.map .char ∧
      (∀ c ∈ lost, c = '\r') ∧ (lost ≠ [] → r.behind l = .string) := by
  obtain ⟨s, hs, hall, -⟩ := Text.dropTrailing_spec (· == '\r') l
  have hreturn : ∀ c ∈ s, c = '\r' := fun c hc => beq_iff_eq.mp (hall c hc)
  have hgap : Gap s := by
    intro c hc
    rw [hreturn c hc]
    exact ⟨by decide, by decide⟩
  obtain ⟨lost, hstrokes, hsub, hinside⟩ := exists_lost hgap r (chomp l)
  rw [chomp, ← hs] at hstrokes hinside
  exact ⟨lost, hstrokes, fun c hc => hreturn c (hsub hc), hinside⟩

/-- **The strokes of a line that is spaced, cut at its ends and indented** are those of the line,
but for blanks at its end that belong to a literal.  A line whose literal goes on below is not cut
at its end. -/
theorem IsBody.exists_lost {p b q : List Cell} (h : IsBody l e p b q) (hn : '\n' ∉ l) (n : Nat) :
    ∃ lost : Text, strokesIn .code l =
        strokesIn .code (List.replicate n ' ' ++ body l (scan .code l).text e) ++
          lost.map .char ∧
      (e = true → lost = []) ∧ (lost ≠ [] → Region.code.behind l = .string) := by
  have hline := isLine_lineCells hn
  obtain ⟨hspaced, hbehind⟩ := hline.spaced
  have hveiled : Veiled false ((lineCells l).map Cell.code) := by
    rw [code_lineCells]
    exact veiled_scan .code l
  have hcut : (spaced [] (lineCells l)).map Cell.raw =
      p.map Cell.raw ++ (b.map Cell.raw ++ q.map Cell.raw) := by
    rw [h.cut, List.map_append, List.map_append]
  have hstrokes : strokesIn .code l = strokesIn .code (b.map Cell.raw ++ q.map Cell.raw) := by
    calc strokesIn .code l
        = cellStrokes false (lineCells l) := by rw [← hline.strokes, raw_lineCells]
      _ = cellStrokes false (spaced [] (lineCells l)) :=
          (strokes_spaced hline.sound hveiled (fun h => by cases h)).symm
      _ = strokesIn .code (p.map Cell.raw ++ (b.map Cell.raw ++ q.map Cell.raw)) := by
          rw [← hspaced.strokes, hcut]
      _ = strokesIn .code (b.map Cell.raw ++ q.map Cell.raw) := strokesIn_gap_append h.left _
  have hregion : Region.code.behind (b.map Cell.raw ++ q.map Cell.raw) = Region.code.behind l := by
    rw [← (scan_code_gap_append h.left _).2, ← hcut, hbehind, raw_lineCells]
  obtain ⟨lost, hlost, hsub, hinside⟩ := Layout.exists_lost h.right .code (b.map Cell.raw)
  rw [hregion] at hinside
  refine ⟨lost, ?_, ?_, hinside⟩
  · rw [strokesIn_gap_append (Text.gap_replicate_space n), hstrokes, hlost, h.raw]
  · intro he
    have hlast := h.last
    rw [he, if_pos rfl] at hlast
    rw [hlast] at hsub
    exact List.eq_nil_of_subset_nil hsub

/-- **What layout makes of a line keeps its strokes**, but for some at the end that are told by
`KeepsStrokes`.  A line that starts inside of a literal only loses carriage returns there. -/
theorem exists_keepsStrokes (dialect : Dialect) (level : Nat) (hn : '\n' ∉ l)
    (hr : r ≠ .lineComment) (e : Bool) :
    ∃ lost, KeepsStrokes r l
      (layLine dialect level (.of l (scan r l).text) l (scan r l).text r e) e lost := by
  have hlast := getLast?_layLine_ne dialect level hn hr e
  obtain ⟨lost, hstrokes, hreturns, hinside⟩ := exists_lost_chomp r l
  obtain ⟨s, hs, hgap, hn', -⟩ := chomp_spec hn
  have hbehind := (scan_append_gap hgap r (chomp l)).2
  rw [← hs] at hbehind
  rw [layLine_eq] at hlast ⊢
  split at hlast
  · rename_i hverbatim
    rw [if_pos hverbatim]
    exact ⟨lost, hstrokes, hinside, fun _ => hreturns, hlast⟩
  · rename_i hverbatim
    rw [if_neg hverbatim]
    obtain rfl := region_of_not_verbatim hr (Bool.eq_false_iff.mpr hverbatim)
    split at hlast
    · rename_i hblank
      rw [if_pos hblank]
      have hgap := Text.gap_of_ink_nil hn ((LineShape.isBlank_iff hn _).mp hblank)
      have hnone : strokesIn .code l = strokesIn .code [] := by
        have h := strokesIn_gap_append hgap []
        rwa [List.append_nil] at h
      exact ⟨[], hnone, fun h => absurd rfl h, fun _ c hc => absurd hc List.not_mem_nil, hlast⟩
    · rename_i hblank
      rw [if_neg hblank]
      obtain ⟨p, b, q, h⟩ := exists_isBody hn' e
      rw [body_chomp hn] at hlast ⊢
      obtain ⟨cut, hcut, hnone, hcutInside⟩ := h.exists_lost hn'
        (dialect.indentUnit * levelOf dialect (.of l (scan .code l).text) level)
      refine ⟨cut ++ lost, ?_, ?_, ?_, hlast⟩
      · rw [hstrokes, hcut, List.map_append, List.append_assoc]
      · intro hne
        by_cases hlost : lost = []
        · rw [hlost, List.append_nil] at hne
          rw [hbehind, hcutInside hne]
        · exact hinside hlost
      · intro he
        rw [hnone he]
        exact hreturns

/-! ## 3. All lines -/

theorem strokesIn_no_newline {t : Text} (hn : '\n' ∉ t) (r : Region) :
    .char '\n' ∉ strokesIn r t := by
  intro h
  have hmem := mem_of_char_mem_strokes h
  rw [List.map_fst_zip (Nat.le_of_eq (length_scan r t).symm)] at hmem
  exact hn hmem

/-- Strokes do not end with a carriage return if the text does not. -/
theorem getLast?_strokesIn_ne {t : Text} (ht : ∀ c ∈ t.getLast?, c ≠ '\r') (r : Region) :
    (strokesIn r t).getLast? ≠ some (.char '\r') := by
  intro h
  obtain ⟨-, p, hp, hreturn⟩ := getLast?_strokes h
  refine ht '\r' ?_ rfl
  rw [← List.map_fst_zip (Nat.le_of_eq (length_scan r t).symm), List.getLast?_map,
    Option.mem_def.mp hp, Option.map_some, hreturn]
  rfl

/-- Behind a line and its newline: the carriage returns that the line lost are those that are
dropped from the strokes. -/
theorem KeepsStrokes.drop_returns {out lost : Text} (h : KeepsStrokes r l out e lost)
    (hout : '\n' ∉ out) (he : r.behind l = .string → e = true) (ss : List Stroke) :
    dropBefore (.char '\r') (.char '\n') (strokesIn r l ++ (newlineStroke (r.behind l) ++ ss)) =
      strokesIn r out ++
        (newlineStroke (r.behind l) ++ dropBefore (.char '\r') (.char '\n') ss) := by
  have hnewline := strokesIn_no_newline hout r
  have hlast := getLast?_strokesIn_ne h.last r
  by_cases hstring : r.behind l = .string
  · -- A literal goes on in the next line.
    have hrun : ∀ s ∈ lost.map Stroke.char, s = .char '\r' := by
      intro s hs
      obtain ⟨c, hc, rfl⟩ := List.mem_map.mp hs
      rw [h.returns (he hstring) c hc]
    have hstroke : newlineStroke (r.behind l) = [.char '\n'] := by
      rw [hstring]
      rfl
    rw [h.strokes, hstroke, List.append_assoc, dropBefore_append hnewline hlast,
      List.singleton_append, dropBefore_run (by decide) hrun]
    rfl
  · have hlost : lost = [] := Classical.byContradiction fun hne => hstring (h.inside hne)
    have hstroke : newlineStroke (r.behind l) = [] := by
      rw [newlineStroke, beq_eq_false_iff_ne.mpr hstring]
      rfl
    rw [h.strokes, hlost, List.map_nil, List.append_nil, hstroke,
      dropBefore_append hnewline hlast]
    rfl

/-- **Layout keeps the strokes of some lines**, but for carriage returns in front of newlines, and
characters of a literal that is not closed.  Line by line, what is lost at the end stands in front
of the newline, and there carriage returns are dropped on the other side too; behind the last line
is no newline, and what is lost there stays lost. -/
theorem exists_strokes_layLines (dialect : Dialect) : ∀ {ls : List Text} {r : Region}
    (level : Nat), ls ≠ [] → (∀ l ∈ ls, '\n' ∉ l) → r ≠ .lineComment →
    ∃ lost : Text, dropBefore (.char '\r') (.char '\n') (strokesIn r (Text.joinLines ls)) =
      strokesIn r (Text.joinLines
          (layLines dialect level ls (codeLines r ls) (lineRegions r ls))) ++
        lost.map .char
  | [], _, _, hne, _, _ => absurd rfl hne
  | [l], r, level, _, hn, hr => by
    have hl : '\n' ∉ l := hn l List.mem_cons_self
    obtain ⟨lost, hlost⟩ := exists_keepsStrokes dialect level hl hr false
    refine ⟨lost, ?_⟩
    rw [Text.joinLines, dropBefore_of_not_mem (strokesIn_no_newline hl r)]
    exact hlost.strokes
  | l :: l' :: ls, r, level, _, hn, hr => by
    obtain ⟨hl, hls⟩ := List.forall_mem_cons.mp hn
    have hnext := afterNewline_ne (r.behind l)
    have hlaid := laid_layLine dialect level hl hr
      ((lineRegions (r.behind l).afterNewline (l' :: ls)).head? == some .string)
    obtain ⟨lost, hlost⟩ := exists_keepsStrokes dialect level hl hr
      ((lineRegions (r.behind l).afterNewline (l' :: ls)).head? == some .string)
    obtain ⟨rest, hrest⟩ := exists_strokes_layLines dialect
      (nextLevel (.of l (scan r l).text) level) (List.cons_ne_nil l' ls) hls hnext
    refine ⟨rest, ?_⟩
    have hstring : r.behind l = .string →
        ((lineRegions (r.behind l).afterNewline (l' :: ls)).head? == some .string) = true := by
      intro h
      rw [h]
      rfl
    rw [layLines_cons, Text.joinLines_cons l (List.cons_ne_nil _ _), strokesIn_append_newline,
      hlost.drop_returns hlaid.one hstring, hrest, Text.joinLines_cons _ ?_,
      strokesIn_append_newline, hlaid.behind]
    · rw [List.append_assoc, List.append_assoc]
    · exact List.cons_ne_nil _ _

end Layout

open Layout

/-- **Layout keeps the literals.**  The closed literals of a text that is laid out are those of the
text, in their order, without the carriage returns directly in front of newlines; nothing else in
them changes.  What the literals are is told by the only decomposition of a text into pieces, which
masking goes by.  The text is handed out just when lines have room for the indentation.

Layout works on lines, and a literal may run over many of them.  So pieces are not followed through
it; strokes are, which can be put together line by line.  Only in the end the closed literals are
read off the strokes, and those of a literal that is not closed are forgotten. -/
theorem format_literals (dialect : Dialect) (t : Text) :
    (format? dialect t = .ok (format dialect t) ↔ hasRoom dialect = true) ∧
      ∃ ps qs, (∀ us, Decomposes t us ↔ us = ps) ∧
        (∀ us, Decomposes (format dialect t) us ↔ us = qs) ∧
        masked t = ps.flatMap Piece.shown ∧ masked (format dialect t) = qs.flatMap Piece.shown ∧
        Piece.closedLiterals qs = (Piece.closedLiterals ps).map Text.withoutReturns := by
  obtain ⟨ps, hps⟩ := exists_decomposes t
  obtain ⟨qs, hqs⟩ := exists_decomposes (format dialect t)
  refine ⟨format?_eq_ok_iff dialect t, ps, qs, fun us => ⟨fun h => h.unique hps, ?_⟩,
    fun us => ⟨fun h => h.unique hqs, ?_⟩, ?_, ?_, ?_⟩
  · rintro rfl
    exact hps
  · rintro rfl
    exact hqs
  · rw [masked, Mask.of, hps.scan]
  · rw [masked, Mask.of, hqs.scan]
  · obtain ⟨lost, hlost⟩ := exists_strokes_layLines dialect 0 (Text.lines_ne_nil t)
      (Text.no_newline_of_mem_lines t) (show Region.code ≠ .lineComment by decide)
    rw [Text.joinLines_lines, ← format_eq] at hlost
    calc Piece.closedLiterals qs
        = closedBodies (strokesIn .code (format dialect t)) := hqs.literals.symm
      _ = closedBodies (strokesIn .code (format dialect t) ++ lost.map .char) := by
          rw [closedBodies, closedBodies, closedSegments_append_chars]
      _ = closedBodies (dropBefore (.char '\r') (.char '\n') (strokesIn .code t)) := by rw [hlost]
      _ = (closedBodies (strokesIn .code t)).map Text.withoutReturns := by
          rw [closedBodies, closedBodies, closedSegments_dropBefore, seconds_map]
          rfl
      _ = (Piece.closedLiterals ps).map Text.withoutReturns := by rw [hps.literals]

-- A literal over two lines keeps its blanks, and the carriage return that no newline follows.
example : format .standard "x=\"a \r\r\n b \r\" ;".toList = "x = \"a \n b \r\" ;".toList := by
  decide +kernel

end HypnoScript
