/-
# Spacing keeps the tokens

Spacing parts no word and joins no two words (`tokens_spaced`), and it puts in and takes out nothing
but spaces and tabs (`dense_spaced`, `ink_spaced`).
-/
import HypnoScript.Proofs.Spacing.Settled
import HypnoScript.Proofs.Text.Tokens

namespace HypnoScript
namespace Spacing

/-! ## 1. Words -/

theorem headIsWord_eq_of_leadingWord {t u : Text}
    (h : Text.leadingWord t = Text.leadingWord u) : Text.headIsWord t = Text.headIsWord u := by
  have key (t : Text) : Text.headIsWord t = !(Text.leadingWord t).isEmpty := by
    cases t with
    | nil => rfl
    | cons c cs => cases hc : Text.isWord c <;> simp [Text.headIsWord, Text.leadingWord, hc]
  rw [key, key, h]

/-- **Spacing keeps the tokens of the code**: a space could only part a word between two word
characters, where none is put in, and two words could only join where the blanks between them are
taken out, and behind those comes a terminator. -/
theorem tokens_spaced {cs : List Cell} : ∀ {before : List Cell}, AllSound cs →
    Text.tokens ((spaced before cs).map Cell.code) = Text.tokens (cs.map Cell.code) := by
  induction cs with
  | nil => exact fun _ => rfl
  | cons c cs ih =>
    intro before hs
    have hcons : Text.tokens (c.code :: (spaced (c :: before) cs).map Cell.code) =
        Text.tokens (c.code :: cs.map Cell.code) :=
      Text.tokens_cons_congr
        (fun hw => headIsWord_eq_of_leadingWord (leadingWord_spaced hs.head hs.tail hw))
        (ih hs.tail)
    cases step_spaced before hs with
    | keep _ _ eq => rw [eq]; exact hcons
    | part b bs _ _ eq =>
      rw [eq, List.map_cons, List.map_cons, Text.tokens_blank_cons (by decide)]
      exact hcons
    | erase gap _ _ _ _ _ _ _ eq =>
      have hblank := hs.head.code_blank (isBlank_of_isGapChar gap)
      rw [eq, List.map_cons, Text.tokens_blank_cons hblank]
      exact ih hs.tail

/-! ## 2. What is left without spaces and tabs -/

/-- The text without its spaces and tabs. -/
def dense (t : Text) : Text := t.filter (!isGapChar ·)

theorem ink_dense (t : Text) : Text.ink (dense t) = Text.ink t := by
  rw [Text.ink, dense, List.filter_filter, Text.ink]
  refine List.filter_congr fun c _ => ?_
  cases hg : isGapChar c with
  | false => rw [Bool.not_false, Bool.and_true]
  | true => simp [isBlank_of_isGapChar hg]

/-- Spacing puts in and takes out spaces and tabs alone, in the line and in its masked copy. -/
theorem dense_spaced {cs : List Cell} : ∀ (before : List Cell), AllSound cs →
    dense ((spaced before cs).map Cell.raw) = dense (cs.map Cell.raw) ∧
      dense ((spaced before cs).map Cell.code) = dense (cs.map Cell.code) := by
  induction cs with
  | nil => exact fun _ _ => ⟨rfl, rfl⟩
  | cons c cs ih =>
    intro before hs
    obtain ⟨hraw, hcode⟩ := ih (c :: before) hs.tail
    have hcons {x : Char} {t u : Text} (h : dense t = dense u) :
        dense (x :: t) = dense (x :: u) := by
      rw [dense, dense, List.filter_cons, List.filter_cons, ← dense, ← dense, h]
    have hskip {x : Char} (h : isGapChar x = true) (t : Text) : dense (x :: t) = dense t := by
      rw [dense, List.filter_cons_of_neg (by simp [h])]
      rfl
    cases step_spaced before hs with
    | keep _ _ eq => rw [eq]; exact ⟨hcons hraw, hcons hcode⟩
    | part b bs _ _ eq =>
      rw [eq, List.map_cons, List.map_cons]
      exact ⟨(hskip (by decide) _).trans (hcons hraw), (hskip (by decide) _).trans (hcons hcode)⟩
    | erase gap _ _ _ _ _ _ _ eq =>
      have hgap : isGapChar c.code = true := by
        rcases hs.head.code_eq with e | e <;> rw [e]
        · exact gap
        · decide
      rw [eq, List.map_cons, List.map_cons, hskip gap, hskip hgap]
      exact ⟨hraw, hcode⟩

theorem ink_spaced {before cs : List Cell} (hs : AllSound cs) :
    Text.ink ((spaced before cs).map Cell.raw) = Text.ink (cs.map Cell.raw) := by
  rw [← ink_dense, (dense_spaced _ hs).1, ink_dense]

/-- The last cell stays the last. -/
theorem getLast?_spaced {cs : List Cell} : ∀ (before : List Cell), AllSound cs →
    (spaced before cs).getLast? = cs.getLast? := by
  induction cs with
  | nil => exact fun _ _ => rfl
  | cons c cs ih =>
    intro before hs
    have ih := ih (c :: before) hs.tail
    cases step_spaced before hs with
    | keep _ _ eq => rw [eq, List.getLast?_cons, List.getLast?_cons, ih]
    | part b bs _ _ eq =>
      rw [eq, List.getLast?_cons_cons, List.getLast?_cons, List.getLast?_cons, ih]
    | erase _ reaches _ t ts _ _ next eq =>
      rw [eq, ih]
      cases cs with
      | nil => exact absurd reaches (by decide)
      | cons d ds => rw [List.getLast?_cons_cons]

end Spacing
end HypnoScript
