/-
# Layout does not change what is found in a text

A text that is laid out has the same tokens in the same lines, and its lines have shapes alike, so
every check finds the same in it, but for the columns (`analyze_format`), and its outline is the
same, but for the columns (`symbols_format`).
-/
import HypnoScript.Proofs.Analysis.Lines
import HypnoScript.Proofs.Layout.Text
import HypnoScript.Proofs.Outline.Tokens

namespace HypnoScript

open Mask
open Text (IsRun located tokens)

/-! ## 1. The same tokens in the same lines -/

theorem Text.located_congr : ∀ {ls ls' : List Text} (n : Nat),
    ls.map tokens = ls'.map tokens → located n ls = located n ls'
  | [], [], _, _ => rfl
  | l :: ls, l' :: ls', n, h => by
    simp only [List.map_cons, List.cons.injEq] at h
    rw [located, located, h.1, located_congr (n + 1) h.2]

/-- A text that is laid out has the same tokens in the same lines. -/
theorem Layout.sameTokens_format (dialect : Dialect) (t : Text) :
    SameTokens (format dialect t) t := by
  have h := laidLines_format dialect t
  refine ⟨h.length_eq, ?_⟩
  rw [Document.codeLines_ofText, Document.codeLines_ofText]
  exact Text.located_congr 0 (h.map_codeLines Laid.tokens)

/-! ## 2. Terminators -/

theorem Text.endsWith_singleton (t : Text) (x : Char) :
    Text.endsWith t [x] = (t.getLast? == some x) := by
  rw [Text.endsWith, Bool.eq_iff_iff, Text.startsWith_iff, List.getLast?_eq_head?_reverse,
    beq_iff_eq, List.reverse_singleton]
  cases t.reverse with
  | nil => simp
  | cons c cs => simp [List.cons_prefix_cons, eq_comm]

/-- Shapes alike lack the terminator or have it, if it is one character. -/
theorem LineShape.Alike.isMissing {s s' : LineShape} (h : Alike s s') {dialect : Dialect}
    (hk : AreWords dialect.statementKeywords) {x : Char} (hx : dialect.terminator = [x]) :
    Terminator.isMissing dialect s = Terminator.isMissing dialect s' := by
  have hempty : s.code.isEmpty = s'.code.isEmpty := by
    rw [Bool.eq_iff_iff, List.isEmpty_iff, List.isEmpty_iff, ← List.getLast?_eq_none_iff, h.last,
      List.getLast?_eq_none_iff]
  simp only [Terminator.isMissing, isBlockBoundary, opensBlock, closesBlock, continues, hx,
    Text.endsWith_singleton, h.blank, h.comment, hempty, h.last, h.openGroups,
    h.startsWithWord hk]

theorem Layout.LaidLines.missingFrom {r : Region} {ls outs : List Text}
    (h : LaidLines r ls outs) {dialect : Dialect}
    (hk : LineShape.AreWords dialect.statementKeywords) {x : Char} (hx : dialect.terminator = [x])
    (n : Nat) :
    Terminator.missingFrom dialect n outs (codeLines r outs) =
      Terminator.missingFrom dialect n ls (codeLines r ls) := by
  induction h generalizing n with
  | nil r => rfl
  | cons head _ ih =>
    rw [codeLines, codeLines, Terminator.missingFrom, Terminator.missingFrom, head.behind,
      ih (n + 1), head.shape.isMissing hk hx]

/-- **The same lines lack their terminator.**  The terminator check goes by the shape of a line and
of the code on it, and layout keeps both but for the indentation, which no shape shows. -/
theorem Layout.missingLines_format (dialect : Dialect)
    (hk : LineShape.AreWords dialect.statementKeywords) {x : Char} (hx : dialect.terminator = [x])
    (t : Text) :
    Terminator.missingLines dialect (.ofText (format dialect t)) =
      Terminator.missingLines dialect (.ofText t) := by
  have h := (laidLines_format dialect t).missingFrom hk hx 0
  rwa [← Document.codeLines_ofText, ← Document.codeLines_ofText] at h

theorem Terminator.rough_check (dialect : Dialect) (w : Wording) (d : Document) :
    (check dialect w d).map Diagnostic.rough = (missingLines dialect d).map fun n =>
      (some .missingTerminator, .warning, w .missingTerminator, n, n) := by
  rw [check, List.map_map]
  rfl

/-! ## 3. All checks -/

theorem Declaration.mem_tried_iff {kws : List Text} (hne : kws ≠ []) (k : Text) :
    k ∈ tried kws ↔ k ∈ kws := by
  rw [tried, if_neg (by simpa using hne), List.mem_mergeSort]

/-- **Layout does not change what the analysis finds**, for any width of indentation and in any
wording: diagnostic by diagnostic, the rule, the severity, the message and the lines stay.

The checks look for words and brackets by offsets, and all offsets change.  But they find tokens,
and of these the lines are known, so that nothing has to be said about offsets in the text that is
laid out: three of the checks go by the tokens of the lines, and the fourth one by their shapes. -/
theorem analyze_format (width : Int) (w : Wording) (t : Text) :
    let dialect : Dialect := { Dialect.standard with indentWidth := width }
    (analyze dialect w (format dialect t)).map Diagnostic.rough =
      (analyze dialect w t).map Diagnostic.rough := by
  intro dialect
  -- The width is no part of what the words are, so these are facts about the usual dialect.
  have hopen : IsRun Dialect.standard.openWrapper := by decide
  have hclose : IsRun Dialect.standard.closeWrapper := by decide
  have hne : Dialect.standard.openWrapper ≠ Dialect.standard.closeWrapper := by decide
  have hstatement : LineShape.AreWords Dialect.standard.statementKeywords := by decide
  have hdeclaration : ∀ k ∈ Declaration.tried Dialect.standard.declarationKeywords, IsRun k := by
    have h : ∀ k ∈ Dialect.standard.declarationKeywords, IsRun k := by decide
    exact fun k hk => h k ((Declaration.mem_tried_iff (by decide) k).mp hk)
  have hsame := Layout.sameTokens_format dialect t
  simp only [analyze, Document.diagnostics, List.map_append]
  rw [Wrapper.check_rough dialect hopen hclose hne w hsame, Bracket.check_rough w hsame,
    Declaration.check_rough dialect hdeclaration w hsame, Terminator.rough_check,
    Terminator.rough_check, Layout.missingLines_format dialect hstatement rfl]

/-! ## 4. The outline -/

/-- **Layout does not change the outline**, in any dialect: the same lines can be folded, and the
symbols are the same one by one on every level, but for their columns.

Where a block ends is looked for through all the code behind its name, across lines.  It is enough
that the lines have the same tokens nevertheless, since only braces and newlines count on the way
(`Outline.linesBelow_filter`). -/
theorem symbols_format (dialect : Dialect) (t : Text) :
    Outline.foldingRanges (format dialect t) = Outline.foldingRanges t ∧
      List.Forall₂ Symbol.Alike (Outline.symbols (format dialect t)) (Outline.symbols t) := by
  have hlaid := Layout.laidLines_format dialect t
  have hcount : (Document.ofText (format dialect t)).lineCount = (Document.ofText t).lineCount :=
    hlaid.length_eq
  have htokens : (Document.ofText (format dialect t)).codeLines.map tokens =
      (Document.ofText t).codeLines.map tokens := by
    rw [Document.codeLines_ofText, Document.codeLines_ofText]
    exact hlaid.map_codeLines Layout.Laid.tokens
  exact ⟨Outline.foldingRanges_congr hcount htokens, Outline.symbols_alike hcount htokens⟩

end HypnoScript
