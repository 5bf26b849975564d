/-
# A whole text, laid out

Layout goes line by line, and what it makes of a line leaves the region behind it as it was, so each
line of the text that is laid out starts where its line started (`laidLines_layLines`).  From there
the two properties of whole texts follow by induction on the lines:

* `format_tokens`: no line, literal, comment, word or operator comes or goes;
* `format_idempotent`: a text that is laid out is laid out already.

The second needs that the dedent keywords consist of word characters.  Spacing may part any other
keyword, so that a second look does not find it.
-/
import HypnoScript.Proofs.Layout.Line

namespace HypnoScript
namespace Layout

open Mask
open Text (ink tokens words)

/-! ## 1. Line by line -/

/-- What layout keeps of some lines, the first of which starts in a region. -/
inductive LaidLines : Region → List Text → List Text → Prop
  | nil (r : Region) : LaidLines r [] []
  | cons {r : Region} {l out : Text} {ls outs : List Text} (head : Laid r l out)
      (tail : LaidLines (r.behind l).afterNewline ls outs) : LaidLines r (l :: ls) (out :: outs)

theorem afterNewline_ne (r : Region) : r.afterNewline ≠ .lineComment := by cases r <;> decide

/-- The lines that are laid out, each with the region it starts in. -/
theorem layLines_cons (dialect : Dialect) (level : Nat) (r : Region) (l : Text) (ls : List Text) :
    layLines dialect level (l :: ls) (codeLines r (l :: ls)) (lineRegions r (l :: ls)) =
      layLine dialect level (.of l (scan r l).text) l (scan r l).text r
          ((lineRegions (r.behind l).afterNewline ls).head? == some .string) ::
        layLines dialect (nextLevel (.of l (scan r l).text) level) ls
          (codeLines (r.behind l).afterNewline ls) (lineRegions (r.behind l).afterNewline ls) := rfl

/-- **Layout keeps, line by line, what it keeps of a line.**  The induction carries the region in
which a line starts, and it can, since a line that is laid out leaves the region behind it as it
was: the next line starts where it started before. -/
theorem laidLines_layLines (dialect : Dialect) : ∀ {ls : List Text} {r : Region} (level : Nat),
    (∀ l ∈ ls, '\n' ∉ l) → r ≠ .lineComment →
    LaidLines r ls (layLines dialect level ls (codeLines r ls) (lineRegions r ls))
  | [], r, _, _, _ => .nil r
  | l :: ls, r, level, hn, hr => by
    rw [layLines_cons]
    have ⟨hl, hls⟩ := List.forall_mem_cons.mp hn
    exact .cons (laid_layLine dialect level hl hr _)
      (laidLines_layLines dialect _ hls (afterNewline_ne _))

namespace LaidLines

variable {r : Region} {ls outs : List Text}

theorem length_eq (h : LaidLines r ls outs) : outs.length = ls.length := by
  induction h with
  | nil r => rfl
  | cons _ _ ih => rw [List.length_cons, List.length_cons, ih]

theorem one (h : LaidLines r ls outs) : ∀ out ∈ outs, '\n' ∉ out := by
  induction h with
  | nil r => exact fun _ h => absurd h List.not_mem_nil
  | cons head _ ih => exact List.forall_mem_cons.mpr ⟨head.one, ih⟩

/-- Every line starts in the region in which it started. -/
theorem regions (h : LaidLines r ls outs) : lineRegions r outs = lineRegions r ls := by
  induction h with
  | nil r => rfl
  | cons head _ ih => rw [lineRegions, lineRegions, head.behind, ih]

theorem map_lines (h : LaidLines r ls outs) : outs.map ink = ls.map ink := by
  induction h with
  | nil r => rfl
  | cons head _ ih => rw [List.map_cons, List.map_cons, head.ink, ih]

/-- What is kept of the masked copy of a line is kept of those of all lines. -/
theorem map_codeLines {β : Type} {f : Text → β}
    (hf : ∀ {r : Region} {l out : Text}, Laid r l out → f (scan r out).text = f (scan r l).text)
    (h : LaidLines r ls outs) : (codeLines r outs).map f = (codeLines r ls).map f := by
  induction h with
  | nil r => rfl
  | cons head _ ih =>
    rw [codeLines, codeLines, List.map_cons, List.map_cons, head.behind, hf head, ih]

end LaidLines

/-- **Lines that are laid out stay as they are when they are laid out again.**  A line sees of the
others only the level and the region in front of it, and whether a literal goes on behind it.  All
three are the same in the second pass, by what layout keeps of every line, so this comes down to one
line. -/
theorem layLines_layLines {dialect : Dialect} (hd : LineShape.AreWords dialect.dedentKeywords) :
    ∀ {ls : List Text} {r : Region} (level : Nat), (∀ l ∈ ls, '\n' ∉ l) → r ≠ .lineComment →
    ∀ {outs : List Text}, outs = layLines dialect level ls (codeLines r ls) (lineRegions r ls) →
    layLines dialect level outs (codeLines r outs) (lineRegions r outs) = outs
  | [], _, _, _, _, _, rfl => rfl
  | l :: ls, r, level, hn, hr, outs, houts => by
    have ⟨hl, hls⟩ := List.forall_mem_cons.mp hn
    rw [layLines_cons] at houts
    subst houts
    have hlaid := laid_layLine dialect level hl hr
      ((lineRegions (r.behind l).afterNewline ls).head? == some .string)
    have hrest := laidLines_layLines dialect
      (nextLevel (.of l (scan r l).text) level) hls (afterNewline_ne (r.behind l))
    rw [layLines_cons, hlaid.behind, hrest.regions, layLine_layLine hd level hl hr _ rfl,
      ← hlaid.shape.nextLevel]
    have ih := layLines_layLines hd (nextLevel (.of l (scan r l).text) level) hls
      (afterNewline_ne (r.behind l)) rfl
    rw [hrest.regions] at ih
    rw [ih]

/-! ## 2. Whole texts -/

theorem format_eq (dialect : Dialect) (t : Text) : format dialect t = Text.joinLines
    (layLines dialect 0 t.lines (codeLines .code t.lines) (lineRegions .code t.lines)) := by
  rw [format, Document.codeLines_ofText, Document.regions_ofText]
  rfl

/-- A text that is laid out is handed out when its lines have room. -/
theorem format?_eq_ok_iff (dialect : Dialect) (t : Text) :
    format? dialect t = .ok (format dialect t) ↔ hasRoom dialect = true := by
  rw [format?]
  cases hasRoom dialect <;> simp

/-- The lines of a text that is laid out. -/
theorem lines_format (dialect : Dialect) (t : Text) :
    (format dialect t).lines =
      layLines dialect 0 t.lines (codeLines .code t.lines) (lineRegions .code t.lines) := by
  have h := laidLines_layLines dialect 0 (Text.no_newline_of_mem_lines t)
    (show Region.code ≠ .lineComment by decide)
  have hne : layLines dialect 0 t.lines (codeLines .code t.lines) (lineRegions .code t.lines) ≠
      [] := by
    rw [← List.length_pos_iff, h.length_eq, List.length_pos_iff]
    exact Text.lines_ne_nil t
  rw [format_eq]
  exact Text.lines_joinLines hne h.one

theorem laidLines_format (dialect : Dialect) (t : Text) :
    LaidLines .code t.lines (format dialect t).lines := by
  rw [lines_format]
  exact laidLines_layLines dialect 0 (Text.no_newline_of_mem_lines t) (by decide)

/-- A text whose lines stay as they are stays as it is. -/
theorem format_of_lines {dialect : Dialect} {t : Text}
    (h : layLines dialect 0 t.lines (codeLines .code t.lines) (lineRegions .code t.lines) =
      t.lines) : format dialect t = t := by
  rw [format_eq, h, Text.joinLines_lines]

end Layout

open Layout

/-- **Layout is idempotent**, for any dialect whose dedent keywords consist of word characters, and
whether or not lines have room for the indentation.

The second pass cannot be compared with the first one step by step, for it reads another text: one
with other masked copies, in which operators, literals and the ends of blocks have to be found
again.  What it goes by is what the first pass keeps of a line (`Laid`), and from that the lines
follow one by one (`layLines_layLines`). -/
theorem format_idempotent {dialect : Dialect}
    (hd : ∀ w ∈ dialect.dedentKeywords, ∀ c ∈ w, Text.isWord c = true) (t : Text) :
    (format? dialect t).bind (format? dialect) = format? dialect t ∧
      format dialect (format dialect t) = format dialect t := by
  have h : format dialect (format dialect t) = format dialect t :=
    format_of_lines (layLines_layLines hd 0 (Text.no_newline_of_mem_lines t) (by decide)
      (lines_format dialect t))
  refine ⟨?_, h⟩
  cases hroom : hasRoom dialect with
  | true => simp [format?, hroom, Except.bind, h]
  | false => simp [format?, hroom, Except.bind]

/-- The usual dialect has such keywords, and a line that gets two spaces gets no third one. -/
theorem format_idempotent_standard :
    (∀ w ∈ Dialect.standard.dedentKeywords, ∀ c ∈ w, Text.isWord c = true) ∧
      format .standard "x=1 ;".toList = "x = 1;".toList ∧
      format .standard "x = 1;".toList = "x = 1;".toList := by
  have hd : LineShape.AreWords Dialect.standard.dedentKeywords := by decide
  have hx : format .standard "x=1 ;".toList = "x = 1;".toList := by decide +kernel
  exact ⟨hd, hx, hx ▸ (format_idempotent hd "x=1 ;".toList).2⟩

/-- **Layout keeps the tokens**: the number of lines, the region in which each line starts, and line
by line the ink of the text and the ink, words and operators of its code.

All of this is about a single line, and part of what layout keeps of one (`Laid`).  What has to be
seen to is that no line comes to start elsewhere: a space that is put in, or a blank that is cut
off, must not open, close or escape anything (`Spacing.scan_spaced`). -/
theorem format_tokens (dialect : Dialect) (t : Text) :
    let x := Document.ofText t
    let y := Document.ofText (format dialect t)
    y.lineCount = x.lineCount ∧ y.regions = x.regions ∧
      y.lines.map Text.ink = x.lines.map Text.ink ∧
      y.codeLines.map Text.ink = x.codeLines.map Text.ink ∧
      y.codeLines.map Text.words = x.codeLines.map Text.words ∧
      y.codeLines.map Spacing.operators = x.codeLines.map Spacing.operators := by
  have h := laidLines_format dialect t
  simp only [Document.codeLines_ofText, Document.regions_ofText]
  refine ⟨h.length_eq, h.regions, h.map_lines, h.map_codeLines fun h => ?_,
    h.map_codeLines fun h => ?_, h.map_codeLines Laid.operators⟩
  · rw [← Text.flatMap_text_tokens, h.tokens, Text.flatMap_text_tokens]
  · rw [Text.words, h.tokens, Text.words]

end HypnoScript
