/-
# Balanced brackets are a Dyck language

What the bracket check accepts can be said without a stack: `Dyck` is the smallest set of words over
the three pairs of brackets that has the empty word, and with two words their concatenation, and
with a word the same word between two brackets of a pair.  The word of a text is made of its
brackets that lie outside of literals and comments (`Piece.brackets`), and the analysis finds no
fault in it just when it is in `Dyck` (`analyze_dyck`).

A stack of open brackets is what is left to be closed.  So on the way back, from the stack to the
grammar, `Closes` says what may follow when a stack is given: a word of `Dyck`, the partner of the
topmost bracket, and then what may follow on the rest of the stack.
-/
import HypnoScript.Proofs.Analysis.Balance
import HypnoScript.Proofs.Masking.Grammar

namespace HypnoScript
namespace Bracket

open Text (isWord isBlank tokens)

/-- The pairs of brackets. -/
def pairs : List (Char × Char) := [('{', '}'), ('(', ')'), ('[', ']')]

/-- The brackets. -/
def isBracket (c : Char) : Bool := pairs.any fun p => c == p.1 || c == p.2

/-- The smallest set of words that has the empty word, and is closed under concatenation and under
wrapping in a pair of brackets. -/
inductive Dyck : Text → Prop
  | nil : Dyck []
  | append {u v : Text} (hu : Dyck u) (hv : Dyck v) : Dyck (u ++ v)
  | wrap {o c : Char} {u : Text} (hp : (o, c) ∈ pairs) (hu : Dyck u) : Dyck (o :: (u ++ [c]))

/-! ## 1. The word of a text -/

theorem isBracket_eq (c : Char) : isBracket c = (isOpener c || isCloser c) := by
  simp only [isBracket, pairs, List.any_cons, List.any_nil, isOpener, isCloser]
  grind

theorem mem_pairs_iff {o c : Char} : (o, c) ∈ pairs ↔ closer? o = some c := by
  simp only [pairs, List.mem_cons, Prod.mk.injEq, List.not_mem_nil, or_false]
  constructor
  · rintro (⟨rfl, rfl⟩ | ⟨rfl, rfl⟩ | ⟨rfl, rfl⟩) <;> rfl
  · intro h
    unfold closer? at h
    split at h
    · exact Or.inl ⟨rfl, (Option.some.inj h).symm⟩
    · exact Or.inr (Or.inl ⟨rfl, (Option.some.inj h).symm⟩)
    · exact Or.inr (Or.inr ⟨rfl, (Option.some.inj h).symm⟩)
    · exact absurd h (by simp)

theorem sides_of_mem_pairs {o c : Char} (h : (o, c) ∈ pairs) :
    isOpener o = true ∧ isOpener c = false ∧ isCloser c = true := by
  simp only [pairs, List.mem_cons, Prod.mk.injEq, List.not_mem_nil, or_false] at h
  rcases h with ⟨rfl, rfl⟩ | ⟨rfl, rfl⟩ | ⟨rfl, rfl⟩ <;> decide

/-- A token is read by the stack as the brackets in it are. -/
theorem openBehind_tokens (m : Text) : ∀ stack : List Char,
    openBehind stack (tokens m) = openBehind stack ((m.filter isBracket).map .sign) := by
  have hplain {c : Char} (h : isWord c = true ∨ isBlank c = true) : ¬ isBracket c = true := by
    rw [isBracket_eq, (not_bracket h).1, (not_bracket h).2]
    exact Bool.false_ne_true
  induction m using Text.token_induction with
  | nil => exact fun _ => rfl
  | blank c t hb ih =>
    intro stack
    rw [Text.tokens_blank_cons hb, List.filter_cons_of_neg (hplain (Or.inr hb)), ih]
  | sign c t hw hb ih =>
    intro stack
    rw [Text.tokens_sign_cons hw hb, openBehind_cons]
    cases hc : isBracket c with
    | true =>
      rw [List.filter_cons_of_pos hc, List.map_cons, openBehind_cons]
      exact congrArg _ (funext ih)
    | false =>
      rw [isBracket_eq, Bool.or_eq_false_iff] at hc
      have hstep : step stack (.sign c) = some stack := by simp [step, hc.1, hc.2]
      rw [List.filter_cons_of_neg (by simp [isBracket_eq, hc.1, hc.2]), hstep, Option.bind_some, ih]
  | word w t hw ht ih =>
    intro stack
    have hfilter : w.filter isBracket = [] :=
      List.filter_eq_nil_iff.mpr fun c hc => hplain (Or.inl (hw.2 c hc))
    rw [Text.tokens_word_append hw ht, openBehind_cons, List.filter_append, hfilter,
      List.nil_append, ← ih]
    rfl

end Bracket

/-- The brackets of a text that are code. -/
def Piece.brackets (ps : List Piece) : Text :=
  ps.flatMap fun
    | .code c => [c].filter Bracket.isBracket
    | _ => []

namespace Bracket

/-- The brackets of the masked copy are those of the code. -/
theorem filter_shown (ps : List Piece) :
    (ps.flatMap Piece.shown).filter isBracket = Piece.brackets ps := by
  have hveil (u : Text) : (u.map Piece.veil).filter isBracket = [] := by
    refine List.filter_eq_nil_iff.mpr fun d hd => ?_
    obtain ⟨c, -, rfl⟩ := List.mem_map.mp hd
    unfold Piece.veil
    split
    · rename_i hc
      rcases hc with rfl | rfl <;> decide
    · decide
  rw [Piece.brackets, List.filter_flatMap]
  refine List.flatMap_congr fun p _ => ?_
  cases p with
  | code c => rfl
  | literal body closed =>
    cases closed <;> simp [Piece.shown, hveil, isBracket, pairs]
  | lineComment body => exact hveil _
  | blockComment body closed => exact hveil _

/-! ## 2. From the grammar to the stack -/

theorem Dyck.balanced {u : Text} (h : Dyck u) : Balanced (u.map .sign) := by
  induction h with
  | nil => rfl
  | append _ _ hu hv =>
    rw [Balanced, List.map_append, hu.openBehind_append]
    exact hv
  | @wrap o c u hp _ hu =>
    obtain ⟨ho, hc, hcloser⟩ := sides_of_mem_pairs hp
    have hopen : step [] (.sign o) = some [o] := by rw [step, if_pos ho]
    have hclose : step [o] (.sign c) = some [] := by
      rw [step, hc, if_neg Bool.false_ne_true, if_pos hcloser, close, if_pos (mem_pairs_iff.mp hp)]
    calc openBehind [] ((o :: (u ++ [c])).map .sign)
        = openBehind [o] (u.map .sign ++ [.sign c]) := by
          rw [List.map_cons, List.map_append, openBehind_cons, hopen]; rfl
      _ = openBehind [o] [.sign c] := hu.openBehind_append [o] _
      _ = some [] := by rw [openBehind_cons, hclose]; rfl

/-! ## 3. From the stack to the grammar -/

/-- What closes the brackets of a stack. -/
def Closes : List Char → Text → Prop
  | [], w => Dyck w
  | o :: stack, w => ∃ u c v, w = u ++ c :: v ∧ Dyck u ∧ (o, c) ∈ pairs ∧ Closes stack v

theorem Closes.append {stack : List Char} {u w : Text} (hu : Dyck u) (h : Closes stack w) :
    Closes stack (u ++ w) := by
  cases stack with
  | nil => exact hu.append h
  | cons o stack =>
    obtain ⟨u', c, v, rfl, hu', hp, hv⟩ := h
    exact ⟨u ++ u', c, v, (List.append_assoc ..).symm, hu.append hu', hp, hv⟩

/-- **What the stack accepts closes it.**  The induction is on the word, with the stack as it is in
front of it: an opener puts one more closer in the way, and a closer that is accepted takes away the
topmost one. -/
theorem closes_of_openBehind {w : Text} : ∀ {stack : List Char}, (∀ c ∈ w, isBracket c = true) →
    openBehind stack (w.map .sign) = some [] → Closes stack w := by
  induction w with
  | nil =>
    intro stack _ h
    obtain rfl : stack = [] := Option.some.inj h
    exact .nil
  | cons c w ih =>
    intro stack hw h
    obtain ⟨hc, hw⟩ := List.forall_mem_cons.mp hw
    rw [List.map_cons, openBehind_cons] at h
    obtain ⟨stack', hstep, h⟩ := Option.bind_eq_some_iff.mp h
    have hclosed := ih hw h
    rw [step] at hstep
    split at hstep
    · obtain rfl := Option.some.inj hstep
      obtain ⟨u, d, v, rfl, hu, hp, hv⟩ := hclosed
      have hwrapped := Closes.append (.wrap hp hu) hv
      rwa [List.cons_append, List.append_assoc, List.singleton_append] at hwrapped
    · split at hstep
      · rename_i ho hcloser
        cases stack with
        | nil => exact absurd hstep (by simp [close])
        | cons o stack =>
          rw [close] at hstep
          split at hstep
          · rename_i hpartner
            obtain rfl := Option.some.inj hstep
            exact ⟨[], c, w, rfl, .nil, mem_pairs_iff.mpr hpartner, hclosed⟩
          · exact absurd hstep (by simp)
      · rename_i ho hc'
        rw [isBracket_eq] at hc
        simp [ho, hc'] at hc

theorem dyck_iff_balanced {w : Text} (hw : ∀ c ∈ w, isBracket c = true) :
    Dyck w ↔ Balanced (w.map .sign) :=
  ⟨Dyck.balanced, closes_of_openBehind hw⟩

end Bracket

/-! ## 4. What the analysis finds -/

/-- **The analysis finds no faulty bracket just when the brackets outside of literals and comments
are a word of the Dyck language.**

The grammar puts words together and the check reads from the left, so neither follows the other.
What both have in common is the stack: a word of the grammar leaves every stack as it was, and what
takes a stack down to nothing is made of words of the grammar, one between two closers (`Closes`).
-/
theorem analyze_dyck (dialect : Dialect) (w : Wording) (t : Text) :
    ∃ ps, (∀ qs, Decomposes t qs ↔ qs = ps) ∧
      ((∀ g ∈ analyze dialect w t, g.rule ≠ some .unbalancedBracket) ↔
        Bracket.Dyck (Piece.brackets ps)) := by
  obtain ⟨ps, h⟩ := exists_decomposes t
  refine ⟨ps, fun qs => ⟨fun h' => h'.unique h, ?_⟩, ?_⟩
  · rintro rfl
    exact h
  · have hmasked : masked t = ps.flatMap Piece.shown := by rw [masked, Mask.of, h.scan]
    have hbrackets : ∀ c ∈ Piece.brackets ps, Bracket.isBracket c = true := by
      rw [← Bracket.filter_shown]
      exact fun c hc => (List.mem_filter.mp hc).2
    rw [Bracket.forall_mem_analyze_iff_balanced, Bracket.dyck_iff_balanced hbrackets,
      Bracket.Balanced, Bracket.openBehind_tokens, hmasked, Bracket.filter_shown]
    rfl

end HypnoScript
