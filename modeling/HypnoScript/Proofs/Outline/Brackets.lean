/-
# Blocks and the bracket check

The outline looks for the end of a block by counting braces from its first one on.  The bracket
check keeps a stack of the openers of all kinds from the start of the text on.  Where the check
finds nothing wrong the two agree (`endLine_partner`): the brace that ends a block is the one that
takes its first brace off the stack, and so its partner.

The depth of the search is the number of braces on the stack from the first brace of the block on,
whatever else lies between them.  One character keeps that up (`depthBehind?_step`), as a closer
that is not reported takes off an opener of its own kind.
-/
import HypnoScript.Proofs.Analysis.Partners
import HypnoScript.Proofs.Outline.Ends

namespace HypnoScript

/-! ## 1. Nothing to report -/

namespace Bracket

variable {g : Reading} {c : Char} {v : Text}

/-- Nothing is reported from a character on just when the character is no faulty closer, and nothing
is reported behind it. -/
theorem faultsFrom_reading_cons : faultsFrom g.stack g.offset (c :: v) = [] ↔
    (isCloser c = true → Fits g.stack c) ∧
      faultsFrom (g.step c).stack (g.step c).offset v = [] := by
  rw [faultsFrom.eq_def]
  dsimp only
  rcases sides c with ⟨ho, hc⟩ | ⟨ho, hc⟩ | ⟨ho, hc⟩ <;>
    simp only [ho, hc, Reading.step, Bool.false_eq_true, if_false, if_true, false_implies,
      true_and, true_implies]
  cases hstack : g.stack with
  | nil =>
    refine iff_of_false (List.cons_ne_nil _ _) ?_
    rintro ⟨⟨f, hf, -⟩, -⟩
    cases hf
  | cons f stack =>
    have hfits : Fits (f :: stack) c ↔ closer? f.opener = some c := by simp [Fits]
    simp only [hfits, List.tail_cons]
    split <;> simp [*]

/-- What is reported from a place on is reported of the whole text. -/
theorem faultsFrom_reading_eq_nil {u : Text} (h : faults (u ++ v) = []) :
    faultsFrom (reading u).stack (reading u).offset v = [] := by
  have hv := faultsFrom_reading v (reading u)
  have hsplit : v.foldl Reading.step (reading u) = reading (u ++ v) := by
    rw [reading, reading, List.foldl_append]
  rw [hsplit, ← faults_eq_reading, h] at hv
  exact (List.append_eq_nil_iff.mp hv).2

/-- Only a brace is closed by a brace. -/
theorem closer?_eq_brace_iff {o : Char} : closer? o = some '}' ↔ o = '{' := by
  unfold closer?
  split <;> simp_all

end Bracket

namespace Outline

open HypnoScript.Bracket (Fits Frame Partners Reading closer?_eq_brace_iff faults faultsFrom isCloser
  reading)

/-! ## 2. Depth and stack -/

/-- The number of braces among the frames of a stack. -/
def braceCount (stack : List Frame) : Nat := stack.countP (·.opener == '{')

@[simp] theorem braceCount_nil : braceCount [] = 0 := rfl

theorem braceCount_cons_brace {f : Frame} (h : f.opener = '{') (stack : List Frame) :
    braceCount (f :: stack) = braceCount stack + 1 :=
  List.countP_cons_of_pos (beq_iff_eq.mpr h)

theorem braceCount_cons_other {f : Frame} (h : f.opener ≠ '{') (stack : List Frame) :
    braceCount (f :: stack) = braceCount stack :=
  List.countP_cons_of_neg (by rwa [beq_iff_eq])

variable {t : Text} {f : Frame} {below : List Frame}

/-- **One character keeps depth and stack together**, if it is no faulty closer: the search stops at
it where the brace `f` of the block is on top, or goes on with a depth that counts `f` and the
braces that are left above it. -/
theorem depthBehind?_step {g : Reading} {above : List Frame} {c : Char} (hf : f.opener = '{')
    (hstack : g.stack = above ++ f :: below) (hfits : isCloser c = true → Fits g.stack c) :
    above = [] ∧ depthBehind? (braceCount above + 1) c = none ∨
      ∃ above', (g.step c).stack = above' ++ f :: below ∧
        depthBehind? (braceCount above + 1) c = some (braceCount above' + 1) := by
  rcases Bracket.sides c with ⟨ho, hc⟩ | ⟨ho, hc⟩ | ⟨ho, hc⟩
  · -- an opener goes on top of the stack
    refine Or.inr ⟨⟨c, g.offset⟩ :: above, ?_, ?_⟩
    · rw [Reading.step_stack, if_pos ho, hstack]
      rfl
    · by_cases hbrace : c = '{'
      · subst hbrace
        rw [braceCount_cons_brace rfl]
        rfl
      · have hclose : c ≠ '}' := by
          rintro rfl
          cases ho
        rw [braceCount_cons_other hbrace, depthBehind?, if_neg hbrace, if_neg hclose]
  · obtain ⟨top, htop, hkind⟩ := hfits hc
    have htail : (g.step c).stack = g.stack.tail := by
      rw [Reading.step_stack, ho, hc]
      rfl
    have hbrace : c ≠ '{' := by
      rintro rfl
      cases hc
    rw [hstack] at htop htail
    cases above with
    | nil =>
      -- the closer takes the brace of the block off, and so is a brace itself
      obtain rfl : f = top := Option.some.inj htop
      obtain rfl : '}' = c := by
        rw [hf] at hkind
        exact Option.some.inj hkind
      exact Or.inl ⟨rfl, rfl⟩
    | cons a above =>
      obtain rfl : a = top := Option.some.inj htop
      refine Or.inr ⟨above, htail, ?_⟩
      by_cases hclose : c = '}'
      · subst hclose
        rw [braceCount_cons_brace (closer?_eq_brace_iff.mp hkind)]
        rfl
      · have hother : a.opener ≠ '{' := by
          intro ha
          rw [ha] at hkind
          exact hclose (Option.some.inj hkind).symm
        rw [braceCount_cons_other hother, depthBehind?, if_neg hbrace, if_neg hclose]
  · -- anything else leaves both as they are
    refine Or.inr ⟨above, ?_, ?_⟩
    · rw [Reading.step_stack, ho, hc, hstack]
      rfl
    · have hbrace : c ≠ '{' := by
        rintro rfl
        cases ho
      have hclose : c ≠ '}' := by
        rintro rfl
        cases hc
      rw [depthBehind?, if_neg hbrace, if_neg hclose]

/-- **The search for the end of a block follows the stack** where nothing is reported: from a depth
that counts the brace `f` of the block and those above it, it stops at the character that finds `f`
on top. -/
theorem exists_closing_of_faultsFrom (hf : f.opener = '{') (v : Text) :
    ∀ (above : List Frame) (g : Reading), g.stack = above ++ f :: below →
      faultsFrom g.stack g.offset v = [] →
      ∃ k, closing? (braceCount above + 1) v = some k ∧
        ((v.take k).foldl Reading.step g).stack = f :: below := by
  induction v with
  | nil =>
    intro above g hstack hfaults
    rw [hstack, faultsFrom] at hfaults
    simp at hfaults
  | cons c v ih =>
    intro above g hstack hfaults
    obtain ⟨hfits, hrest⟩ := Bracket.faultsFrom_reading_cons.mp hfaults
    rcases depthBehind?_step hf hstack hfits with ⟨rfl, hstop⟩ | ⟨above', hstack', hnext⟩
    · exact ⟨0, closing?_cons_stop hstop, hstack⟩
    · obtain ⟨k, hk, htop⟩ := ih above' (g.step c) hstack' hrest
      refine ⟨k + 1, ?_, htop⟩
      rw [closing?_cons_next hnext, hk]
      rfl

/-- Where nothing is reported, every brace that is opened is closed, and the stack has it on top
there. -/
theorem exists_closingAt (h : faults t = []) {i : Nat} (hi : t[i]? = some '{') :
    ∃ j, closingAt? t i = some j ∧ (reading (t.take j)).stack.head? = some ⟨'{', i⟩ := by
  have hlt : i < t.length := (List.getElem?_eq_some_iff.mp hi).1
  have hsplit : t.take (i + 1) ++ t.drop (i + 1) = t := List.take_append_drop (i + 1) t
  have htake : t.take (i + 1) = t.take i ++ ['{'] := by
    rw [List.take_add_one, hi]
    rfl
  have hstack : (reading (t.take (i + 1))).stack =
      [] ++ ⟨'{', i⟩ :: (reading (t.take i)).stack := by
    rw [htake, Bracket.reading_concat, Reading.step_stack, if_pos (by decide),
      Bracket.offset_reading, List.length_take_of_le (Nat.le_of_lt hlt)]
    rfl
  have hfaults := Bracket.faultsFrom_reading_eq_nil (hsplit.symm ▸ h)
  obtain ⟨k, hk, htop⟩ := exists_closing_of_faultsFrom rfl (t.drop (i + 1)) [] _ hstack hfaults
  refine ⟨i + 1 + k, ?_, ?_⟩
  · rw [closingAt?_of_brace hi]
    exact Option.map_eq_some_iff.mpr ⟨k, hk, rfl⟩
  · have hreading : reading (t.take (i + 1 + k)) =
        ((t.drop (i + 1)).take k).foldl Reading.step (reading (t.take (i + 1))) := by
      rw [List.take_add, reading, List.foldl_append]
      rfl
    rw [hreading, htop]
    rfl

/-! ## 3. The last line of a block -/

/-- **Where the bracket check reports nothing, blocks end at partners.**  Whatever the forms are, if
a brace is opened at or behind the name of a block, the search for the end of the block stops at a
brace that closes it; that brace takes the first one off the stack of the check, so the two are
partners, and it stands on the last line of the block.  If no brace is opened there, the block is
its line alone.

The search knows braces only, and none of those in front of the block, while the stack of the check
has brackets of all kinds.  A parenthesis that is open across a brace would lead it astray; then
something would be reported. -/
theorem endLine_partner {t : Text} (hfaults : faults (masked t) = []) {forms : List Form} {n : Nat}
    {b : Block} (hb : blockAt? (.ofText t) forms n = some b) :
    let d := Document.ofText t
    (∀ i, OpensAt (masked t) (b.nameAt d) i →
      ∃ j, closingAt? (masked t) i = some j ∧ (masked t)[j]? = some '}' ∧
        (reading ((masked t).take j)).stack.head? = some ⟨'{', i⟩ ∧
        Partners (masked t) i j ∧ b.endLine = (d.positionAt j).line) ∧
      ((∀ i, ¬ OpensAt (masked t) (b.nameAt d) i) → b.endLine = n) := by
  intro d
  obtain ⟨rfl, hdeclared⟩ := declared_of_blockAt? hb
  refine ⟨?_, hdeclared.endLine_of_not_opensAt⟩
  intro i hi
  obtain ⟨j, hclosing, htop⟩ := exists_closingAt hfaults hi.brace
  have hbrace := getElem?_of_closingAt? hclosing
  have hpartners : Partners (masked t) i j :=
    (Bracket.partners_iff ⟨'}', hbrace, rfl⟩).mpr ⟨_, htop, rfl⟩
  refine ⟨j, hclosing, hbrace, htop, hpartners, ?_⟩
  rw [hdeclared.endLine_of_opensAt hi, stopOf_of_closed hclosing]

/-- Parentheses and brackets between two braces, and braces between those, do not mislead the
search. -/
theorem endLine_partner_session :
    let t := "session A \x7b\n  f([\x7b \x7d]);\n\x7d".toList
    let d := Document.ofText t
    let b : Block := ⟨⟨"A".toList, 8, sessionForm⟩, 0, 2⟩
    (faults (masked t) = [] ∧ blockAt? d topForms 0 = some b) ∧
      OpensAt (masked t) (b.nameAt d) 10 ∧
      ∃ j, closingAt? (masked t) 10 = some j ∧ Partners (masked t) 10 j ∧
        b.endLine = (d.positionAt j).line := by
  intro t d b
  have hfaults : faults (masked t) = [] := by decide +kernel
  have hb : blockAt? d topForms 0 = some b := rfl
  have hopens : OpensAt (masked t) (b.nameAt d) 10 := by decide +kernel
  obtain ⟨j, hclosing, -, -, hpartners, hend⟩ := (endLine_partner hfaults hb).1 10 hopens
  exact ⟨⟨hfaults, hb⟩, hopens, j, hclosing, hpartners, hend⟩

end Outline
end HypnoScript
