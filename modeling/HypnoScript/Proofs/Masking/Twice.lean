/-
# Masking twice

A masked copy is a text itself, and can be scanned like any other.  The quotation marks are still
there, so its literals stand where those of the text do, with nothing but blanks in them.  Its
comments are gone, and no comment opens in it (`Mask.not_infix_scan`): a slash that is shown stands
in front of no other slash and of no star.  So a second scan leaves the copy as it is, and finds its
lines in the same regions, those inside of comments in code (`Mask.of_masked`).  Masking is
idempotent (`masked_idempotent`).

The document of the masked copy therefore has the same code as that of the text, and lines of the
same lengths (`Document.SameCode`).  Offsets, positions and spans depend on nothing else.
-/
import HypnoScript.Proofs.Masking.Lines
import HypnoScript.Proofs.Text.Positions

namespace HypnoScript

/-- The region in which the masked copy of a text is read that is read in a region: there are
literals in it, but no comments. -/
def Region.inCopy : Region → Region
  | .string => .string
  | .code | .lineComment | .blockComment => .code

theorem Region.inCopy_afterNewline (r : Region) :
    r.inCopy.afterNewline = r.afterNewline.inCopy := by
  cases r <;> rfl

namespace Mask

/-! ## 1. The masked copy of a masked copy -/

/-- The mask of the masked copy that a mask has. -/
def inCopy (m : Mask) : Mask := ⟨m.text, m.regions.map Region.inCopy⟩

@[simp] theorem inCopy_push (c : Char) (m : Mask) : (m.push c).inCopy = m.inCopy.push c := rfl

@[simp] theorem inCopy_pushLine (r : Region) (m : Mask) :
    (m.pushLine r).inCopy = m.inCopy.pushLine r.inCopy := rfl

/-- What is hidden is read as it is, in code and in a literal. -/
theorem scan_hide (r : Region) (c : Char) (t : Text) :
    scan r.inCopy (hide c :: t) = (scan r.inCopy t).push (hide c) := by
  have hblank : hide c = '\r' ∨ hide c = ' ' := by
    unfold hide
    split
    · exact Or.inl rfl
    · exact Or.inr rfl
  generalize hide c = d at hblank
  have hn : d ≠ '\n' := by rintro rfl; exact absurd hblank (by decide)
  have hq : d ≠ '"' := by rintro rfl; exact absurd hblank (by decide)
  have ho : ¬ OpensComment d t := by rintro ⟨rfl, -⟩; exact absurd hblank (by decide)
  have he : ¬ Escapes d t := by rintro ⟨rfl, -⟩; exact absurd hblank (by decide)
  have hhide : hide d = d := by rcases hblank with rfl | rfl <;> rfl
  cases r with
  | string => rw [Region.inCopy, scan_string hn hq he, hhide]
  | code | lineComment | blockComment => rw [Region.inCopy, scan_code hn hq ho]

theorem scan_space (r : Region) (t : Text) :
    scan r.inCopy (' ' :: t) = (scan r.inCopy t).push ' ' := scan_hide r ' ' t

/-- The masked copy starts as the text does, if it starts with no space. -/
theorem head?_of_scan {r : Region} {t : Text} {d : Char} (hd : d ≠ ' ')
    (h : (scan r t).text.head? = some d) : t.head? = some d := by
  obtain ⟨m, hm⟩ := List.head?_eq_some_iff.mp h
  have hhides := forall₂_hides_scan r t
  rw [hm] at hhides
  obtain ⟨c, cs, hc, -, rfl⟩ := List.forall₂_cons_right_iff.mp hhides
  rcases hc with rfl | ⟨rfl, -⟩
  · rfl
  · exact absurd rfl hd

/-- No comment opens in the masked copy that did not open in the text. -/
theorem opensComment_of_scan {r : Region} {c : Char} {t : Text}
    (h : OpensComment c (scan r t).text) : OpensComment c t :=
  ⟨h.1, h.2.imp (head?_of_scan (by decide)) (head?_of_scan (by decide))⟩

/-- **A second scan leaves the masked copy as it is.**  Comments are gone by then, so that it goes
through code wherever the first one went through a comment.  In a literal it finds blanks up to the
same quotation mark, since backslashes and escaped marks are hidden. -/
theorem scan_scan (r : Region) (t : Text) :
    scan r.inCopy (scan r t).text = (scan r t).inCopy := by
  induction r, t using scan_induction with
  | nil r => simp [inCopy]
  | newline r cs ih =>
    rw [scan_newline, text_pushLine, scan_newline, Region.inCopy_afterNewline, ih, inCopy_pushLine]
  | openString cs ih | closeString cs ih => exact congrArg (push '"') ih
  | openLine cs ih | openBlock cs ih | closeBlock cs ih =>
    exact (scan_space .code _).trans
      (congrArg (push ' ') ((scan_space .code _).trans (congrArg (push ' ') ih)))
  | code c cs hn hq ho ih =>
    have ho' : ¬ OpensComment c (scan .code cs).text := fun h => ho (opensComment_of_scan h)
    rw [scan_code hn hq ho, text_push, Region.inCopy, scan_code hn hq ho']
    exact congrArg (push c) ih
  | escape c cs hn ih =>
    rw [scan_escape hn, text_push, text_push, scan_space, scan_hide, ih, inCopy_push, inCopy_push]
  | string c cs hn hq he ih => rw [scan_string hn hq he, text_push, scan_hide, ih, inCopy_push]
  | lineComment c cs hn ih => rw [scan_lineComment hn, text_push, scan_hide, ih, inCopy_push]
  | blockComment c cs hn hc ih => rw [scan_blockComment hn hc, text_push, scan_hide, ih, inCopy_push]

/-- **No comment opens in a masked copy.**  A slash is shown in code only, and if a second slash or
a star followed it there, the two would have been taken for the start of a comment and hidden. -/
theorem not_infix_scan {d : Char} (hd : d = '/' ∨ d = '*') (r : Region) (t : Text) :
    ¬ ['/', d] <:+: (scan r t).text := by
  have hcons {c : Char} {m : Text} (h : ¬ ['/', d] <:+: m) (hc : ¬ OpensComment c m) :
      ¬ ['/', d] <:+: c :: m := by
    rw [List.infix_cons_iff, List.cons_prefix_cons]
    rintro (⟨rfl, ⟨v, rfl⟩⟩ | hm)
    · exact hc ⟨rfl, hd.imp (by rintro rfl; rfl) (by rintro rfl; rfl)⟩
    · exact h hm
  have hhide {c : Char} {m : Text} (h : ¬ ['/', d] <:+: m) : ¬ ['/', d] <:+: hide c :: m := by
    refine hcons h fun ho => ?_
    have := ho.1
    unfold hide at this
    split at this <;> exact absurd this (by decide)
  have hspace {m : Text} (h : ¬ ['/', d] <:+: m) : ¬ ['/', d] <:+: ' ' :: m := hhide (c := ' ') h
  induction r, t using scan_induction with
  | nil r => simp
  | newline r cs ih => exact scan_newline r cs ▸ hcons ih fun h => absurd h.1 (by decide)
  | openString cs ih | closeString cs ih => exact hcons ih fun h => absurd h.1 (by decide)
  | openLine cs ih | openBlock cs ih | closeBlock cs ih => exact hspace (hspace ih)
  | code c cs hn hq ho ih =>
    rw [scan_code hn hq ho, text_push]
    exact hcons ih fun h => ho (opensComment_of_scan h)
  | escape c cs hn ih =>
    rw [scan_escape hn, text_push, text_push]
    exact hspace (hhide ih)
  | string c cs hn hq he ih => rw [scan_string hn hq he]; exact hhide ih
  | lineComment c cs hn ih => rw [scan_lineComment hn]; exact hhide ih
  | blockComment c cs hn hc ih => rw [scan_blockComment hn hc]; exact hhide ih

/-- The mask of a masked copy: the copy itself, whose lines start in code where those of the text
start in a block comment. -/
theorem of_masked (t : Text) : Mask.of (masked t) = (Mask.of t).inCopy :=
  congrArg (fun m : Mask => { m with regions := .code :: m.regions }) (scan_scan .code t)

end Mask

theorem masked_masked (t : Text) : masked (masked t) = masked t := by
  rw [masked, Mask.of_masked]
  rfl

/-- **Masking is idempotent**, and no comment opens in a masked copy.  The second scan does not run
through the same regions as the first one, as it finds code where comments were; it is compared with
the first one under that translation (`Mask.scan_scan`). -/
theorem masked_idempotent (t : Text) :
    masked (masked t) = masked t ∧
      ¬ "//".toList <:+: masked t ∧ ¬ "/*".toList <:+: masked t :=
  ⟨masked_masked t, Mask.not_infix_scan (Or.inl rfl) .code t,
    Mask.not_infix_scan (Or.inr rfl) .code t⟩

/-! ## 2. The document of a masked copy -/

namespace Document

/-- Two documents have the same code, and lines of the same lengths. -/
structure SameCode (d d' : Document) : Prop where
  code : d.code = d'.code
  codeLines : d.codeLines = d'.codeLines
  lengths : d.lines.map List.length = d'.lines.map List.length

/-- **The document of the masked copy has the code of the text**, and its lines are as long, so that
offsets and positions are the same in both. -/
theorem sameCode_masked (t : Text) : SameCode (ofText (masked t)) (ofText t) where
  code := masked_masked t
  codeLines := congrArg Text.lines (masked_masked t)
  lengths := by
    change (ofText t).codeLines.map List.length = t.lines.map List.length
    rw [codeLines_ofText, Mask.map_length_codeLines]

namespace SameCode

variable {d d' : Document}

theorem lineCount (h : SameCode d d') : d.lineCount = d'.lineCount := by
  rw [Document.lineCount, Document.lineCount, ← List.length_map List.length, h.lengths,
    List.length_map]

theorem lastLine (h : SameCode d d') : d.lastLine = d'.lastLine := by
  rw [Document.lastLine, Document.lastLine, h.lineCount]

theorem lineLength (h : SameCode d d') (n : Nat) : d.lineLength n = d'.lineLength n := by
  have key (ls : List Text) : (ls.getD n []).length = (ls.map List.length).getD n 0 := by
    rw [List.getD_eq_getElem?_getD, List.getD_eq_getElem?_getD, List.getElem?_map]
    cases ls[n]? <;> rfl
  rw [Document.lineLength, Document.lineLength, key, key, h.lengths]

theorem lineStart (h : SameCode d d') (n : Nat) : d.lineStart n = d'.lineStart n := by
  have key (ls : List Text) :
      lineStartIn ls n = ((ls.map List.length).take n).foldr (fun l n => l + 1 + n) 0 := by
    rw [lineStartIn, ← List.map_take, List.foldr_map]
  rw [Document.lineStart, Document.lineStart, key, key, h.lengths]

theorem positionAt (h : SameCode d d') (o : Int) : d.positionAt o = d'.positionAt o :=
  positionIn_congr o.toNat h.lengths

theorem offsetAt (h : SameCode d d') (p : Position) : d.offsetAt p = d'.offsetAt p := by
  simp only [Document.offsetAt, h.lastLine, h.lineLength, h.lineStart]

theorem spanAt (h : SameCode d d') (o : Int) (width : Nat) :
    d.spanAt o width = d'.spanAt o width := by
  have hends : d.ends o width = d'.ends o width := by
    simp only [ends, h.positionAt, h.lineLength]
  simp only [Document.spanAt, hends]

theorem endOfLine (h : SameCode d d') (n : Nat) : d.endOfLine n = d'.endOfLine n := by
  rw [Document.endOfLine, Document.endOfLine, h.lineLength]

end SameCode
end Document
end HypnoScript
