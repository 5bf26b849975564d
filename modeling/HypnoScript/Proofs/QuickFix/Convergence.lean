/-
# One pass of fixing is enough

A text that has been fixed is its terminated text between the missing parts of the wrapper
(`QuickFix.fixed`).  If neither a literal nor a block comment is open at the end of the text, the
closing wrapper is code, so the words that were missing are found afterwards
(`QuickFix.tokensBut_fixed`).  If moreover no literal goes on behind a line, no line lacks its
terminator afterwards (`QuickFix.allTerminated_fixed`).  Then there is nothing left to fix
(`fixDocument_converges`).

The two conditions are needed: what is put in at a place inside of a literal is not seen, so it is
asked for and put in again, and again.
-/
import HypnoScript.Proofs.QuickFix.Terminated

namespace HypnoScript

open Mask (scan)
open Text (headIsWord tokens tokensBut)

/-! ## 1. Words that are missing -/

namespace QuickFix

/-- **A word is missing when it is none of the tokens of the code.** -/
theorem lacks_eq_true_iff {w : Text} (hw : Text.IsRun w) (t : Text) :
    lacks w (.ofText t) = true ↔ .word w ∉ tokens (masked t) := by
  have hcode : (Document.ofText t).code = masked t := rfl
  rw [lacks, List.isEmpty_iff, hcode, Text.wordOffsets_eq hw, ← Text.map_fst_placed 0 (masked t)]
  simp only [Text.placesOf, List.filterMap_eq_nil_iff, List.mem_map, not_exists, not_and,
    ite_eq_right_iff, reduceCtorEq, imp_false]

theorem isRun_openWrapper : Text.IsRun Dialect.standard.openWrapper := by decide

theorem isRun_closeWrapper : Text.IsRun Dialect.standard.closeWrapper := by decide

/-! ## 2. The fixed text -/

/-- A text with its terminators, between what is missing of the wrapper. -/
def fixed (dialect : Dialect) (t : Text) : Text :=
  Edit.target (openingParts dialect (.ofText t)) ++
    (terminate dialect .code t ++ Edit.target (closingParts dialect (.ofText t)))

theorem fixDocument_eq_fixed (dialect : Dialect) (w : Wording) (t : Text) :
    fixDocument dialect w t = .ok (fixed dialect t) := by
  rw [fixDocument_eq, fixed, terminate, ← Document.codeLines_ofText]
  rfl

/-- The tokens of what is put in in front of a text. -/
def openingTokens (t : Text) : List Token :=
  if lacks Dialect.standard.openWrapper (.ofText t) then
    [.word Dialect.standard.openWrapper, .sign '\x7b'] else []

/-- The tokens of what is put in behind a text, where it is code. -/
def closingTokens (t : Text) : List Token :=
  if lacks Dialect.standard.closeWrapper (.ofText t) then
    [.sign '\x7d', .word Dialect.standard.closeWrapper] else []

/-- The closing wrapper does not come behind a literal or a block comment that is still open. -/
def ClosesInCode (t : Text) : Prop :=
  lacks Dialect.standard.closeWrapper (.ofText t) → (Region.code.behind t).isOpen = false

theorem tokensBut_openingParts (t u : Text) :
    tokensBut ';' (masked (Edit.target (openingParts .standard (.ofText t)) ++ u)) =
      openingTokens t ++ tokensBut ';' (masked u) := by
  by_cases hlacks : lacks Dialect.standard.openWrapper (.ofText t)
  · have htext : Edit.target (openingParts .standard (.ofText t)) =
        "Focus \x7b".toList ++ ['\n'] := by
      rw [openingParts, if_pos hlacks]
      decide
    have htokens : tokensBut ';' (scan .code "Focus \x7b".toList).text =
        [.word Dialect.standard.openWrapper, .sign '\x7b'] := by decide
    rw [htext, List.append_assoc, List.singleton_append, masked, Mask.of, Mask.scan_append_newline]
    dsimp only
    rw [Text.tokensBut_append_newline, htokens, openingTokens, if_pos hlacks]
    rfl
  · rw [openingParts, if_neg hlacks, openingTokens, if_neg hlacks]
    rfl

/-- Where the closing wrapper is code, its tokens are those of the text of the wrapper. -/
theorem tokensBut_closingParts {t : Text} (h : ClosesInCode t) :
    let m := (scan (Region.code.behind t) (Edit.target (closingParts .standard (.ofText t)))).text
    headIsWord m = false ∧ tokensBut ';' m = closingTokens t := by
  rw [target_closingParts, closingTokens]
  split
  · rename_i hlacks
    have hopen := h hlacks
    split
    · rename_i hempty
      have hregion := behind_ne_lineComment hempty
      cases hb : Region.code.behind t with
      | code => decide
      | lineComment => exact absurd hb hregion
      | string | blockComment => exact absurd (hb ▸ hopen) (by decide)
    · cases hb : Region.code.behind t with
      | code | lineComment => decide
      | string | blockComment => exact absurd (hb ▸ hopen) (by decide)
  · rw [Mask.scan_nil]
    exact ⟨rfl, rfl⟩

/-- **The tokens of a fixed text**, but for terminators, are those of the text, between the missing
parts of the wrapper.  The parts stand on lines of their own, so no word of theirs joins one of the
text. -/
theorem tokensBut_fixed {t : Text} (h : ClosesInCode t) :
    tokensBut ';' (masked (fixed .standard t)) =
      openingTokens t ++ (tokensBut ';' (masked t) ++ closingTokens t) := by
  obtain ⟨hhead, htokens⟩ := tokensBut_closingParts h
  have hbody : tokensBut ';' (masked (terminate .standard .code t ++
      Edit.target (closingParts .standard (.ofText t)))) =
        tokensBut ';' (masked t) ++ closingTokens t := by
    rw [masked, Mask.of, (cut_closingParts .code _ t).text,
      behind_terminate Dialect.terminatedBy_standard, Text.tokensBut_append hhead, htokens,
      tokensBut_terminate Dialect.terminatedBy_standard]
    rfl
  rw [fixed, tokensBut_openingParts, hbody]

/-- **No word of the wrapper is missing in a fixed text**: it was there, or it has been put in where
the masked copy shows it. -/
theorem not_lacks_fixed {t : Text} (h : ClosesInCode t) :
    lacks Dialect.standard.openWrapper (.ofText (fixed .standard t)) = false ∧
      lacks Dialect.standard.closeWrapper (.ofText (fixed .standard t)) = false := by
  rw [← Bool.not_eq_true, ← Bool.not_eq_true, lacks_eq_true_iff isRun_openWrapper,
    lacks_eq_true_iff isRun_closeWrapper, not_not, not_not,
    ← Text.word_mem_tokensBut (c := ';'), ← Text.word_mem_tokensBut (c := ';'), tokensBut_fixed h]
  constructor
  · by_cases hlacks : lacks Dialect.standard.openWrapper (.ofText t)
    · simp [openingTokens, hlacks]
    · rw [lacks_eq_true_iff isRun_openWrapper, not_not] at hlacks
      simp [Text.word_mem_tokensBut, hlacks]
  · by_cases hlacks : lacks Dialect.standard.closeWrapper (.ofText t)
    · simp [closingTokens, hlacks]
    · rw [lacks_eq_true_iff isRun_closeWrapper, not_not] at hlacks
      simp [Text.word_mem_tokensBut, hlacks]

/-! ## 3. The lines of a fixed text -/

theorem allTerminated_nil (dialect : Dialect) (r : Region) : AllTerminated dialect r [] := by
  rw [allTerminated_of_no_newline (by simp), Mask.scan_nil]
  rfl

/-- **No line lacks its terminator in front of the closing wrapper**, and neither does the wrapper,
which has a line of its own. -/
theorem allTerminated_append_closingParts {t : Text} (hlines : .string ∉ (scan .code t).regions)
    (hend : (Region.code.behind t).isOpen = false) :
    AllTerminated .standard .code
      (terminate .standard .code t ++ Edit.target (closingParts .standard (.ofText t))) := by
  have hc := Dialect.terminatedBy_standard
  have hline : ∀ {u : Text}, .string ∉ (scan .code u).regions →
      (Region.code.behind u).isOpen = false →
      AllTerminated .standard .code (terminate .standard .code u ++ '\n' :: closingLine) := by
    intro u hlines hend
    rw [allTerminated_append_newline, behind_terminate hc, Region.isOpen_eq_false_iff.mp hend]
    exact ⟨allTerminated_terminate hc hlines (Region.ne_string_of_not_open hend), by decide⟩
  rw [target_closingParts]
  split
  · split
    · rename_i hempty
      rcases Text.eq_of_last_line_nil ((Document.lineLength_lastLine_eq_zero_iff t).mp hempty) with
        rfl | ⟨u, rfl⟩
      · decide
      · rw [terminate_append_newline, (allTerminated_nil .standard _).terminate_eq,
          List.append_assoc, List.singleton_append]
        rw [Mask.scan_append_newline] at hlines
        rw [Mask.behind_append_newline, Mask.behind_nil] at hend
        exact hline (fun h => hlines (List.mem_append_left _ h))
          (Region.isOpen_afterNewline _ ▸ hend)
    · exact hline hlines hend
  · rw [List.append_nil]
    exact allTerminated_terminate hc hlines (Region.ne_string_of_not_open hend)

/-- **No line of a fixed text lacks its terminator**, if no literal goes on behind a line and
nothing is open at the end.  The wrapper has lines of its own, one of which ends with a brace and
the other one starts with one, so neither of them wants a terminator. -/
theorem allTerminated_fixed {t : Text} (hlines : .string ∉ (scan .code t).regions)
    (hend : (Region.code.behind t).isOpen = false) :
    AllTerminated .standard .code (fixed .standard t) := by
  have hbody := allTerminated_append_closingParts hlines hend
  rw [fixed, openingParts]
  split
  · have htext : Edit.target [.put (openingEdit .standard).newText] =
        "Focus \x7b".toList ++ ['\n'] := by decide
    rw [htext, List.append_assoc, List.singleton_append, allTerminated_append_newline]
    exact ⟨by decide, hbody⟩
  · exact hbody

/-! ## 4. Nothing left to fix -/

/-- A text with the whole wrapper and all terminators stays as it is. -/
theorem fixed_eq_self {dialect : Dialect} {t : Text}
    (hopen : lacks dialect.openWrapper (.ofText t) = false)
    (hclose : lacks dialect.closeWrapper (.ofText t) = false)
    (hall : AllTerminated dialect .code t) : fixed dialect t = t := by
  rw [fixed, openingParts, hopen, closingParts, hclose, hall.terminate_eq]
  exact List.append_nil t

end QuickFix

open QuickFix

/-- **One pass of fixing is enough** for a text in which no line starts inside of a literal, and one
more line at the end would start in code: fixing it succeeds, the fixed text has none of the
diagnostics that fixing goes by, and fixing it again does not change it.

What is put in could be hidden by a literal or a comment, join a word, or make a line want a
terminator that wanted none before.  The first of these is what the two conditions rule out, and the
others never happen. -/
theorem fixDocument_converges (w : Wording) (t : Text)
    (hliteral : .string ∉ (Mask.of (t ++ ['\n'])).regions)
    (hend : (Mask.of (t ++ ['\n'])).regions.getLast? = some .code) :
    ∃ y, fixDocument .standard w t = .ok y ∧
      (∀ g ∈ analyze .standard w y, g.rule ≠ some .missingTerminator ∧
        g.rule ≠ some .noOpenWrapper ∧ g.rule ≠ some .noCloseWrapper) ∧
      fixDocument .standard w y = .ok y := by
  have hregions : (Mask.of (t ++ ['\n'])).regions =
      .code :: ((scan .code t).regions ++ [(Region.code.behind t).afterNewline]) := by
    rw [Mask.of, Mask.scan_append_newline, Mask.scan_nil]
  rw [hregions, List.mem_cons, List.mem_append, not_or, not_or] at hliteral
  rw [hregions, ← List.cons_append, List.getLast?_concat, Option.some.injEq] at hend
  have hopen : (Region.code.behind t).isOpen = false := Region.isOpen_eq_false_iff.mpr hend
  obtain ⟨hopening, hclosing⟩ := not_lacks_fixed (t := t) fun _ => hopen
  have hall := allTerminated_fixed hliteral.2.1 hopen
  refine ⟨fixed .standard t, fixDocument_eq_fixed .standard w t, fun g hg => ⟨?_, ?_, ?_⟩, ?_⟩
  · intro hrule
    have hmem := Terminator.mem_check_iff.mpr ⟨hg, hrule⟩
    rw [Terminator.check, missingLines_eq_nil_iff.mpr hall] at hmem
    exact List.not_mem_nil hmem
  · intro hrule
    rw [← (any_rule_diagnostics .standard w _).1, List.any_eq_false] at hopening
    exact hopening g hg (by simp [hrule])
  · intro hrule
    rw [← (any_rule_diagnostics .standard w _).2, List.any_eq_false] at hclosing
    exact hclosing g hg (by simp [hrule])
  · rw [fixDocument_eq_fixed, fixed_eq_self hopening hclosing hall]

/-- A statement on its own, with a comment behind it. -/
theorem fixDocument_converges_statement :
    let t := "observe 1 // x".toList
    (.string ∉ (Mask.of (t ++ ['\n'])).regions ∧
        (Mask.of (t ++ ['\n'])).regions.getLast? = some .code) ∧
      ∃ y, fixDocument .standard .standard t = .ok y ∧
        (∀ g ∈ analyze .standard .standard y, g.rule ≠ some .missingTerminator ∧
          g.rule ≠ some .noOpenWrapper ∧ g.rule ≠ some .noCloseWrapper) ∧
        fixDocument .standard .standard y = .ok y :=
  ⟨⟨by decide, by decide⟩, fixDocument_converges .standard _ (by decide) (by decide)⟩

end HypnoScript
