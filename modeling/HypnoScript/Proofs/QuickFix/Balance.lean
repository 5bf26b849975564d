/-
# Fixing a text and its brackets

Each half of the wrapper comes with a brace, and is put in if its own word is missing.  So a text
with balanced brackets keeps them balanced when both halves are put in, or none.  It does not when
it gets one half only, for then the brace of that half has no partner (`fixDocument_balanced`).
Terminators are no brackets.

This is so where the closing half is code.  Behind a literal or a block comment that is still open,
it is not.
-/
import HypnoScript.Proofs.Analysis.Balance
import HypnoScript.Proofs.QuickFix.Convergence
import HypnoScript.Proofs.QuickFix.Rewriting

namespace HypnoScript

open Text (tokens tokensBut)

/-- Terminators are not seen by the bracket check. -/
theorem Bracket.balanced_tokensBut_iff (t : Text) :
    Bracket.Balanced (tokensBut ';' t) ↔ Bracket.Balanced (tokens t) := by
  rw [Bracket.Balanced, Bracket.Balanced, tokensBut, openBehind_filter (by decide)]

namespace QuickFix

/-- **A balanced text stays balanced just when it gets both halves of the wrapper, or none.**  The
fixed text has the tokens of the old one between those of the two halves.  Balanced tokens can be
left out between them, and what remains is an opening brace, a closing one, both or none. -/
theorem balanced_fixed_iff {t : Text} (hclose : ClosesInCode t)
    (hbalanced : Bracket.Balanced (tokens (masked t))) :
    Bracket.Balanced (tokens (masked (fixed .standard t))) ↔
      (lacks Dialect.standard.openWrapper (.ofText t) ↔
        lacks Dialect.standard.closeWrapper (.ofText t)) := by
  have hbody : Bracket.Balanced (tokensBut ';' (masked t)) :=
    (Bracket.balanced_tokensBut_iff _).mpr hbalanced
  have hwrapper : Bracket.Balanced (tokens (masked (fixed .standard t))) ↔
      (Bracket.openBehind [] (openingTokens t)).bind (Bracket.openBehind · (closingTokens t)) =
        some [] := by
    rw [← Bracket.balanced_tokensBut_iff, tokensBut_fixed hclose, Bracket.Balanced,
      Bracket.openBehind_append]
    simp only [hbody.openBehind_append]
  rw [hwrapper, openingTokens, closingTokens]
  cases lacks Dialect.standard.openWrapper (.ofText t) <;>
    cases lacks Dialect.standard.closeWrapper (.ofText t) <;> decide

end QuickFix

open QuickFix (fixed reports)

/-- **Fixing a text with balanced brackets** keeps them balanced just when both halves of the
wrapper are reported to be missing, or none.  Where the closing half is put in, no literal and no
block comment may be open.

That condition is about what is put in, not about the text: in a literal or a comment the brace of
the closing half is no code, and then it closes nothing. -/
theorem fixDocument_balanced (w : Wording) (t : Text)
    (hbalanced : ∀ g ∈ analyze .standard w t, g.rule ≠ some .unbalancedBracket)
    (hclose : ∀ g ∈ analyze .standard w t, g.rule = some .noCloseWrapper →
      (Region.code.behind t).isOpen = false) :
    ∃ y, fixDocument .standard w t = .ok y ∧
      ((∀ g ∈ analyze .standard w y, g.rule ≠ some .unbalancedBracket) ↔
        (reports (analyze .standard w t) .noOpenWrapper ↔
          reports (analyze .standard w t) .noCloseWrapper)) := by
  obtain ⟨hopens, hcloses⟩ := QuickFix.any_rule_diagnostics .standard w t
  have hcode : QuickFix.ClosesInCode t := by
    intro hlacks
    rw [← hcloses, List.any_eq_true] at hlacks
    obtain ⟨g, hg, hrule⟩ := hlacks
    exact hclose g hg (beq_iff_eq.mp hrule)
  rw [Bracket.forall_mem_analyze_iff_balanced] at hbalanced
  refine ⟨fixed .standard t, QuickFix.fixDocument_eq_fixed .standard w t, ?_⟩
  rw [Bracket.forall_mem_analyze_iff_balanced, QuickFix.balanced_fixed_iff hcode hbalanced,
    ← hopens, ← hcloses]
  rfl

/-- A statement on its own gets the whole wrapper, behind the comment at its end. -/
theorem fixDocument_balanced_statement :
    let t := "observe f(1) // \x7b".toList
    ((∀ g ∈ analyze .standard .standard t, g.rule ≠ some .unbalancedBracket) ∧
        ∀ g ∈ analyze .standard .standard t, g.rule = some .noCloseWrapper →
          (Region.code.behind t).isOpen = false) ∧
      ∃ y, fixDocument .standard .standard t = .ok y ∧
        ((∀ g ∈ analyze .standard .standard y, g.rule ≠ some .unbalancedBracket) ↔
          (reports (analyze .standard .standard t) .noOpenWrapper ↔
            reports (analyze .standard .standard t) .noCloseWrapper)) := by
  intro t
  have hbalanced : ∀ g ∈ analyze .standard .standard t, g.rule ≠ some .unbalancedBracket :=
    (Bracket.forall_mem_analyze_iff_balanced _ _ t).mpr (by decide)
  have hclose : ∀ g ∈ analyze .standard .standard t, g.rule = some .noCloseWrapper →
      (Region.code.behind t).isOpen = false := fun _ _ _ => by decide
  exact ⟨⟨hbalanced, hclose⟩, fixDocument_balanced .standard t hbalanced hclose⟩

/-- The closing word is missing, but its brace is there: fixing the text puts in a second one. -/
theorem fixDocument_unbalances :
    let t := "Focus \x7b\n\x7d\n".toList
    let y := "Focus \x7b\n\x7d\n\x7d Relax\n".toList
    fixDocument .standard .standard t = .ok y ∧
      (∀ g ∈ analyze .standard .standard t, g.rule ≠ some .unbalancedBracket) ∧
      ∃ g ∈ analyze .standard .standard y, g.rule = some .unbalancedBracket := by
  intro t y
  have hy : ¬ ∀ g ∈ analyze .standard .standard y, g.rule ≠ some .unbalancedBracket := by
    rw [Bracket.forall_mem_analyze_iff_balanced]
    decide
  refine ⟨?_, (Bracket.forall_mem_analyze_iff_balanced _ _ t).mpr (by decide), ?_⟩
  · rw [fixDocument_eq]
    decide +kernel
  · simpa using hy

end HypnoScript
