/-
# The analysis of a masked copy

What stands in literals and in comments has no influence.  The masked copy, in which all of it is
blank, is a text itself, and it has the same code as the text and lines of the same lengths
(`Document.sameCode_masked`).  The checks of the wrapper, of brackets and of declarations look at
nothing else, and neither does the outline.

The check of terminators looks at the line itself too.  A line that starts with a comment is never
reported, but the masked copy has no comments.  So code behind such a comment is seen in the masked
copy and not in the text, and the two analyses agree where there is none (`CommentsAlone`).
-/
import HypnoScript.Outline
import HypnoScript.Proofs.Analysis.Lines
import HypnoScript.Proofs.Masking.Twice

namespace HypnoScript

/-! ## 1. Checks of the code -/

namespace Document.SameCode

variable {d d' : Document}

theorem check_wrapper (h : SameCode d d') (dialect : Dialect) (w : Wording) :
    Wrapper.check dialect w d = Wrapper.check dialect w d' := by
  simp only [Wrapper.check, h.code, h.spanAt, h.lastLine]

theorem check_bracket (h : SameCode d d') (w : Wording) :
    Bracket.check w d = Bracket.check w d' := by
  simp only [Bracket.check, h.code, h.spanAt]

theorem check_declaration (h : SameCode d d') (dialect : Dialect) (w : Wording) :
    Declaration.check dialect w d = Declaration.check dialect w d' := by
  simp only [Declaration.check, h.code, h.spanAt]

end Document.SameCode

/-! ## 2. The check of terminators -/

/-- On every line that starts with a comment there is nothing but blanks in the masked copy. -/
def CommentsAlone (t : Text) : Prop :=
  ∀ p ∈ t.lines.zip (masked t).lines,
    p.1.trim.startsWith ['/', '/'] = true ∨ p.1.trim.startsWith ['/', '*'] = true →
      p.2.trim = []

instance (t : Text) : Decidable (CommentsAlone t) :=
  inferInstanceAs (Decidable (∀ p ∈ t.lines.zip (masked t).lines, _ → _))

namespace Mask

/-- A line of a masked copy starts with no comment. -/
theorem not_isComment_scan {l : Text} (hn : '\n' ∉ l) (r : Region) (c : Text) :
    (LineShape.of (scan r l).text c).isComment = false := by
  have hstart {d : Char} (hd : d = '/' ∨ d = '*') :
      (scan r l).text.trim.startsWith ['/', d] = false := by
    refine Bool.eq_false_iff.mpr fun h => not_infix_scan hd r l ?_
    obtain ⟨s, u, htrim, -⟩ := Text.trim_spec (no_newline_scan (r := r) hn)
    have hsub : (scan r l).text.trim <:+: (scan r l).text :=
      ⟨s, u, by rw [List.append_assoc, ← htrim]⟩
    exact (Text.startsWith_iff.mp h).isInfix.trans hsub
  rw [LineShape.isComment]
  exact Bool.or_eq_false_iff.mpr ⟨hstart (Or.inl rfl), hstart (Or.inr rfl)⟩

/-- A line of blanks has a masked copy of blanks. -/
theorem trim_scan_eq_nil {l : Text} (hn : '\n' ∉ l) (h : l.trim = []) (r : Region) :
    (scan r l).text.trim = [] := by
  have hgap : Text.Gap l := Text.gap_of_ink_nil hn ((Text.trim_eq_nil_iff hn).mp h)
  exact (Text.trim_eq_nil_iff (no_newline_scan hn)).mpr (Text.ink_gap (gap_scan hgap r))

end Mask

namespace Terminator

/-- Of the line itself the check only asks whether it is blank or a comment. -/
theorem isMissing_congr (dialect : Dialect) {l l' c : Text}
    (h : c.trim ≠ [] → (LineShape.of l c).isBlank = (LineShape.of l' c).isBlank ∧
      (LineShape.of l c).isComment = (LineShape.of l' c).isComment) :
    isMissing dialect (.of l c) = isMissing dialect (.of l' c) := by
  have hcode (l : Text) : (LineShape.of l c).code = c.trim := rfl
  by_cases hc : c.trim = []
  · simp [isMissing, hcode, hc]
  · obtain ⟨hblank, hcomment⟩ := h hc
    have hboundary : (LineShape.of l c).isBlockBoundary = (LineShape.of l' c).isBlockBoundary := rfl
    have hcontinues : (LineShape.of l c).continues = (LineShape.of l' c).continues := rfl
    have hword : (LineShape.of l c).startsWithWord dialect.statementKeywords =
        (LineShape.of l' c).startsWithWord dialect.statementKeywords := rfl
    rw [isMissing, isMissing, hblank, hcomment, hboundary, hcontinues, hword, hcode, hcode]

/-- **A masked copy lacks the same terminators**, where no code stands behind a comment.  A line and
its masked copy have the same code, so they differ for the check only where the line is a comment:
then its copy is blank, and neither of them is reported. -/
theorem missingFrom_masked (dialect : Dialect) {ls : List Text} : ∀ {n : Nat} {r : Region},
    (∀ l ∈ ls, '\n' ∉ l) →
    (∀ p ∈ ls.zip (Mask.codeLines r ls),
      (LineShape.of p.1 p.2).isComment = true → p.2.trim = []) →
    missingFrom dialect n (Mask.codeLines r ls) (Mask.codeLines r ls) =
      missingFrom dialect n ls (Mask.codeLines r ls) := by
  induction ls with
  | nil => exact fun _ _ => rfl
  | cons l ls ih =>
    intro n r hn halone
    rw [Mask.codeLines, List.zip_cons_cons, List.forall_mem_cons] at halone
    obtain ⟨hl, hls⟩ := List.forall_mem_cons.mp hn
    have hline : isMissing dialect (.of (Mask.scan r l).text (Mask.scan r l).text) =
        isMissing dialect (.of l (Mask.scan r l).text) := by
      refine isMissing_congr dialect fun hc => ⟨?_, ?_⟩
      · have hblank : l.trim ≠ [] := fun h => hc (Mask.trim_scan_eq_nil hl h r)
        exact (List.isEmpty_eq_false_iff.mpr hc).trans (List.isEmpty_eq_false_iff.mpr hblank).symm
      · have hcomment : (LineShape.of l (Mask.scan r l).text).isComment = false :=
          Bool.eq_false_iff.mpr fun h => hc (halone.1 h)
        rw [Mask.not_isComment_scan hl, hcomment]
    rw [Mask.codeLines, missingFrom, missingFrom, hline, ih hls halone.2]

theorem check_masked (dialect : Dialect) (w : Wording) {t : Text} (h : CommentsAlone t) :
    check dialect w (.ofText (masked t)) = check dialect w (.ofText t) := by
  have hsame := Document.sameCode_masked t
  have hlines : (Document.ofText (masked t)).lines = (Document.ofText t).codeLines := rfl
  have hmissing : missingLines dialect (.ofText (masked t)) =
      missingLines dialect (.ofText t) := by
    rw [missingLines, missingLines, hsame.codeLines, hlines, Document.codeLines_ofText]
    refine missingFrom_masked dialect (Text.no_newline_of_mem_lines t) fun p hp hcomment => ?_
    rw [← Document.codeLines_ofText] at hp
    exact h p hp (Bool.or_eq_true_iff.mp hcomment)
  rw [check, check, hmissing]
  simp only [hsame.endOfLine]

end Terminator

/-! ## 3. The outline -/

namespace Document.SameCode

open Outline

variable {d d' : Document}

theorem blockAt? (h : SameCode d d') (forms : List Form) (n : Nat) :
    blockAt? d forms n = blockAt? d' forms n := by
  simp only [Outline.blockAt?, h.codeLines, h.code, h.lineStart]

theorem toSymbol (h : SameCode d d') (b : Block) (children : List Symbol) :
    b.toSymbol d children = b.toSymbol d' children := by
  simp only [Block.toSymbol, h.lineLength]

theorem blocksFrom (h : SameCode d d') (forms : List Form) (count : Nat) : ∀ n resume : Nat,
    blocksFrom d forms count n resume = blocksFrom d' forms count n resume := by
  induction count with
  | zero => exact fun _ _ => rfl
  | succ count ih =>
    intro n resume
    rw [Outline.blocksFrom, Outline.blocksFrom, h.blockAt?]
    simp only [ih]

theorem symbolsOf (h : SameCode d d') : symbolsOf d = symbolsOf d' := by
  simp only [Outline.symbolsOf, members, h.blocksFrom, h.toSymbol, h.lineCount]

theorem foldingRangesOf (h : SameCode d d') : foldingRangesOf d = foldingRangesOf d' := by
  simp only [Outline.foldingRangesOf, h.blockAt?, h.lineCount]

end Document.SameCode

/-! ## 4. Both of them -/

/-- **What stands in literals and comments has no influence** on the outline, and none on the
analysis where a line that starts with a comment has no code.

Most of it holds because masking is idempotent: the analysis of the masked copy looks at the same
code.  The exception is a check that looks at the line too, and the condition is just what makes it
come to the same. -/
theorem analyze_masked (t : Text) :
    (CommentsAlone t → ∀ (dialect : Dialect) (w : Wording),
        analyze dialect w (masked t) = analyze dialect w t) ∧
      Outline.symbols (masked t) = Outline.symbols t ∧
      Outline.foldingRanges (masked t) = Outline.foldingRanges t := by
  have hsame := Document.sameCode_masked t
  refine ⟨fun h dialect w => ?_, hsame.symbolsOf, hsame.foldingRangesOf⟩
  rw [analyze, analyze, Document.diagnostics, Document.diagnostics, hsame.check_wrapper,
    hsame.check_bracket, Terminator.check_masked dialect w h, hsame.check_declaration]

/-- A bracket and a terminator, in a literal and in comments, count neither for the text nor for its
masked copy; the statement in front of them lacks its terminator in both. -/
theorem analyze_masked_statement :
    let t := "// Focus (\n  freeze x = \"[\" /* ; */\n".toList
    masked t = "          \n  freeze x = \" \"        \n".toList ∧ CommentsAlone t ∧
      ∀ (dialect : Dialect) (w : Wording), analyze dialect w (masked t) = analyze dialect w t :=
  ⟨by decide, by decide, (analyze_masked _).1 (by decide)⟩

/-- Code behind a comment is seen in the masked copy alone. -/
example :
    let t := "/**/ observe 1".toList
    Terminator.missingLines .standard (.ofText t) = [] ∧
      Terminator.missingLines .standard (.ofText (masked t)) = [0] := by decide

end HypnoScript
