/-
# What is reported about the wrapper

The two words of the wrapper are looked for as whole words, and nothing that is no such place
counts: a longer word that one of them starts, a literal, a comment.  What is reported follows from
the two lists of places alone (`reports_exact`): each word that stands nowhere, then every place of
the opening word but the first, then those of the closing word, then the order of the first two.  An
error about a place covers the word that stands there (`Document.Covers`).

The words can be any two of a dialect, as long as they are made of word characters and differ.  That
they differ matters where nothing is to be reported (`check_eq_nil_iff_places`): with one word for
both ends, a single place would be enough.
-/
import HypnoScript.Proofs.Analysis.Verdict

namespace HypnoScript

open Text (IsRun StandsWhole wordOffsets)

/-! ## 1. All places of a word -/

/-- The list of all places at which a word stands in some code as a whole, from the left. -/
structure Text.AllPlaces (code word : Text) (places : List Nat) : Prop where
  pairwise : places.Pairwise (· < ·)
  mem_iff : ∀ n, n ∈ places ↔ StandsWhole 0 code word n

theorem Text.allPlaces_wordOffsets {word : Text} (hw : IsRun word) (code : Text) :
    AllPlaces code word (wordOffsets word code) :=
  ⟨pairwise_wordOffsets hw code, mem_wordOffsets_iff hw code⟩

/-- The span of a place of a word covers the word. -/
theorem Document.covers_spanAt_of_standsWhole {t word : Text} (hw : IsRun word) {n : Nat}
    (h : StandsWhole 0 (ofText t).code word n) :
    (ofText t).Covers ((ofText t).spanAt n word.length) n word.length := by
  obtain ⟨p, q, hcode, hp, -⟩ := h
  exact covers_spanAt hw.newline_not_mem ⟨p, q, hcode, hp⟩

namespace Wrapper

/-! ## 2. The reports -/

/-- The error about a word that stands at an offset. -/
def errorAt (w : Wording) (d : Document) (rule : Rule) (message : Message) (word : Text)
    (n : Nat) : Diagnostic :=
  report w rule message (d.spanAt n word.length)

/-- What is reported about the order: the first place of the opening word, if the first one of the
closing word is in front of it, and nothing otherwise. -/
inductive OrderReported (dialect : Dialect) (w : Wording) (d : Document) (opens closes : List Nat) :
    List Diagnostic → Prop
  | wrong {i j : Nat} (hopen : opens.head? = some i) (hclose : closes.head? = some j)
    (hlt : j < i) : OrderReported dialect w d opens closes
      [errorAt w d .wrapperOrder .wrapperOrder dialect.openWrapper i]
  | right (h : ∀ i j, opens.head? = some i → closes.head? = some j → ¬ j < i) :
    OrderReported dialect w d opens closes []

/-- **The wrapper check goes by the places of the two words**, and by nothing else: which errors
there are follows from whether the two lists are empty, their tails, and their heads. -/
theorem check_eq (dialect : Dialect) (w : Wording) (d : Document) :
    let opens := wordOffsets dialect.openWrapper d.code
    let closes := wordOffsets dialect.closeWrapper d.code
    ∃ order, OrderReported dialect w d opens closes order ∧
      check dialect w d =
        (if opens = [] then [report w .noOpenWrapper .noOpenWrapper (Span.emptyAt ⟨0, 0⟩)]
          else []) ++
        (if closes = [] then
          [report w .noCloseWrapper .noCloseWrapper (Span.emptyAt ⟨d.lastLine, 0⟩)] else []) ++
        opens.tail.map
          (errorAt w d .duplicateOpenWrapper .duplicateOpenWrapper dialect.openWrapper) ++
        closes.tail.map
          (errorAt w d .duplicateCloseWrapper .duplicateCloseWrapper dialect.closeWrapper) ++
        order := by
  simp only [check, List.isEmpty_iff, List.drop_one]
  generalize wordOffsets dialect.openWrapper d.code = opens
  generalize wordOffsets dialect.closeWrapper d.code = closes
  rcases opens with _ | ⟨i, is⟩
  · refine ⟨[], .right ?_, rfl⟩
    intro i j hi
    cases hi
  · rcases closes with _ | ⟨j, js⟩
    · refine ⟨[], .right ?_, rfl⟩
      intro i j hi hj
      cases hj
    · by_cases hlt : j < i
      · refine ⟨_, .wrong rfl rfl hlt, ?_⟩
        simp only [if_pos hlt]
        rfl
      · refine ⟨[], .right ?_, ?_⟩
        · intro _ _ hi hj
          cases hi
          cases hj
          exact hlt
        · simp only [if_neg hlt]
          rfl

/-- **What is reported about the wrapper is exact**, for every two different words of word
characters.  The errors follow from the places where the two words stand as whole words: first the
words that stand nowhere, then the places of the opening word but the first one and those of the
closing word, then the wrong order of the first ones.  Errors about a place cover the word there.
Nothing is reported just when each word stands at one place, the opening one in front.

The search has to find all places and no others, in their order.  It finds tokens
(`wordOffsets_eq`), and the places of a word are those of the tokens that are the word, since the
word consists of word characters. -/
theorem reports_exact {dialect : Dialect} (ho : IsRun dialect.openWrapper)
    (hc : IsRun dialect.closeWrapper) (hne : dialect.openWrapper ≠ dialect.closeWrapper)
    (w : Wording) (t : Text) :
    let d := Document.ofText t
    (∃ opens closes order,
      d.code.AllPlaces dialect.openWrapper opens ∧
      d.code.AllPlaces dialect.closeWrapper closes ∧
      OrderReported dialect w d opens closes order ∧
      check dialect w d =
        (if opens = [] then [report w .noOpenWrapper .noOpenWrapper (Span.emptyAt ⟨0, 0⟩)]
          else []) ++
        (if closes = [] then
          [report w .noCloseWrapper .noCloseWrapper (Span.emptyAt ⟨d.lastLine, 0⟩)] else []) ++
        opens.tail.map
          (errorAt w d .duplicateOpenWrapper .duplicateOpenWrapper dialect.openWrapper) ++
        closes.tail.map
          (errorAt w d .duplicateCloseWrapper .duplicateCloseWrapper dialect.closeWrapper) ++
        order) ∧
    (∀ word ∈ [dialect.openWrapper, dialect.closeWrapper], ∀ n, StandsWhole 0 d.code word n →
      d.Covers (d.spanAt n word.length) n word.length) ∧
    (check dialect w d = [] ↔
      ∃ i j, i < j ∧ (∀ n, StandsWhole 0 d.code dialect.openWrapper n ↔ n = i) ∧
        ∀ n, StandsWhole 0 d.code dialect.closeWrapper n ↔ n = j) := by
  intro d
  refine ⟨?_, ?_, check_eq_nil_iff_places ho hc hne w t⟩
  · obtain ⟨order, horder, heq⟩ := check_eq dialect w d
    exact ⟨_, _, order, Text.allPlaces_wordOffsets ho d.code, Text.allPlaces_wordOffsets hc d.code,
      horder, heq⟩
  · intro word hword n hn
    have hrun : IsRun word := by
      rcases List.mem_cons.mp hword with rfl | hword
      · exact ho
      · exact List.mem_singleton.mp hword ▸ hc
    exact Document.covers_spanAt_of_standsWhole hrun hn

/-- The words in comments and literals and inside of longer words are not those of the wrapper. -/
theorem reports_exact_hidden :
    let d := Document.ofText "// Focus\nFocus [ Focused \"Relax\"\n] Relax".toList
    (IsRun Dialect.standard.openWrapper ∧ IsRun Dialect.standard.closeWrapper ∧
        Dialect.standard.openWrapper ≠ Dialect.standard.closeWrapper) ∧
      check .standard .standard d = [] ∧
      ∃ i j, i < j ∧ (∀ n, StandsWhole 0 d.code Dialect.standard.openWrapper n ↔ n = i) ∧
        ∀ n, StandsWhole 0 d.code Dialect.standard.closeWrapper n ↔ n = j := by
  intro d
  have hnothing : check .standard .standard d = [] := by decide +kernel
  have hopen : IsRun Dialect.standard.openWrapper := by decide
  have hclose : IsRun Dialect.standard.closeWrapper := by decide
  have hexact := reports_exact hopen hclose (by decide) .standard
    "// Focus\nFocus [ Focused \"Relax\"\n] Relax".toList
  exact ⟨by decide, hnothing, hexact.2.2.mp hnothing⟩

end Wrapper
end HypnoScript
