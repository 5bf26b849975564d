/-
# What the checks read off the tokens

The checks look at the masked copy character by character, but all that they find are tokens: the
whole words of a text (`wordOffsets_eq`) and its brackets (`faults_eq`).  Each search is stated here
for tokens that stand anywhere, at offsets or in lines, so that it can be asked for the lines of
what was found at offsets (`placesOf_map`, `faultsOf_map`).
-/
import HypnoScript.Bracket
import HypnoScript.Proofs.Text.Places
import HypnoScript.Text.Basic

namespace HypnoScript

open Text (IsRun headIsWord placed isWord isBlank)

variable {α β : Type}

/-! ## 1. Whole words -/

namespace Text

/-- Where a word stands among some tokens. -/
def placesOf (w : Text) (ts : List (Token × α)) : List α :=
  ts.filterMap fun p => if p.1 = .word w then some p.2 else none

theorem placesOf_map (w : Text) (f : α → β) (ts : List (Token × α)) :
    placesOf w (ts.map fun p => (p.1, f p.2)) = (placesOf w ts).map f := by
  rw [placesOf, placesOf, List.filterMap_map, List.map_filterMap]
  refine List.filterMap_congr fun p _ => ?_
  simp only [Function.comp_apply]
  split <;> rfl

theorem lastIsWord_of_isRun {w : Text} (hw : IsRun w) (before : Bool) :
    lastIsWord before w = true := by
  rw [lastIsWord, List.getLast?_eq_some_getLast hw.1]
  exact hw.2 _ (List.getLast_mem hw.1)

/-- Where a word begins, it stands as a whole if it is the word that begins there. -/
theorem wordAtStart_iff {w : Text} (hw : IsRun w) {t : Text} (ht : headIsWord t = true) :
    wordAtStart w false t = true ↔ leadingWord t = w := by
  rw [wordAtStart, atBoundary, ht, ← starts_iff hw.2]
  cases h : afterStart? w t with
  | none => simp
  | some rest => simp [atBoundary, lastIsWord_of_isRun hw]

/-- Where no word begins, no word stands as a whole. -/
theorem wordAtStart_of_not_word {w : Text} (hw : IsRun w) {t : Text} (ht : headIsWord t = false)
    (before : Bool) : wordAtStart w before t = false := by
  rw [wordAtStart, afterStart?_of_not_word hw ht, Bool.and_false]

/-- What is left of an occurrence is passed over. -/
theorem wordOffsetsFrom_skip {u : Text} (hu : ∀ c ∈ u, isWord c = true) (w : Text) (o : Nat)
    (t : Text) :
    wordOffsetsFrom w o u.length true (u ++ t) = wordOffsetsFrom w (o + u.length) 0 true t := by
  induction u generalizing o with
  | nil => rfl
  | cons c u ih =>
    rw [List.cons_append, List.length_cons, wordOffsetsFrom, hu c List.mem_cons_self,
      ih (fun d hd => hu d (List.mem_cons_of_mem _ hd)), Nat.add_assoc, Nat.add_comm 1]

/-- Inside a word no word stands. -/
theorem wordOffsetsFrom_inside {u : Text} (hu : ∀ c ∈ u, isWord c = true) (w : Text) (o : Nat)
    (t : Text) :
    wordOffsetsFrom w o 0 true (u ++ t) = wordOffsetsFrom w (o + u.length) 0 true t := by
  induction u generalizing o with
  | nil => rfl
  | cons c u ih =>
    have hc : isWord c = true := hu c List.mem_cons_self
    have hstart : wordAtStart w true (c :: (u ++ t)) = false := by
      simp [wordAtStart, atBoundary, headIsWord, hc]
    rw [List.cons_append, wordOffsetsFrom, if_neg (by simp [hstart]), hc,
      ih (fun d hd => hu d (List.mem_cons_of_mem _ hd)), List.length_cons, Nat.add_assoc,
      Nat.add_comm 1]

theorem wordOffsetsFrom_eq {w : Text} (hw : IsRun w) (t : Text) : ∀ (o : Nat) (before : Bool),
    before = false ∨ headIsWord t = false →
    wordOffsetsFrom w o 0 before t = placesOf w (placed o t) := by
  have step {c : Char} {t : Text} (hc : isWord c = false) (o : Nat) (before : Bool) :
      wordOffsetsFrom w o 0 before (c :: t) = wordOffsetsFrom w (o + 1) 0 false t := by
    have hstart := wordAtStart_of_not_word hw (t := c :: t) (by simpa [headIsWord] using hc) before
    rw [wordOffsetsFrom, if_neg (by simp [hstart]), hc]
  induction t using token_induction with
  | nil =>
    intro o before _
    rw [wordOffsetsFrom, wordAtStart_of_not_word hw rfl]
    rfl
  | blank c t hb ih =>
    intro o before _
    rw [step (isWord_eq_false_of_isBlank hb), placed_blank_cons hb]
    exact ih _ _ (Or.inl rfl)
  | sign c t hc hb ih =>
    intro o before _
    rw [step hc, placed_sign_cons hc hb]
    exact ih _ _ (Or.inl rfl)
  | word u t hu ht ih =>
    intro o before h
    have hlead := leadingWord_append_run hu.2 ht
    rw [placed_word_append hu ht, placesOf, List.filterMap_cons, ← placesOf,
      ← ih (o + u.length) true (Or.inr ht)]
    obtain ⟨c, u, rfl⟩ := List.exists_cons_of_ne_nil hu.1
    have hc : isWord c = true := hu.2 c List.mem_cons_self
    have hu' : ∀ d ∈ u, isWord d = true := fun d hd => hu.2 d (List.mem_cons_of_mem _ hd)
    obtain rfl : before = false := h.resolve_right (by simp [headIsWord, hc])
    have hstart := wordAtStart_iff hw (t := c :: u ++ t) (by simp [headIsWord, hc])
    rw [hlead, List.cons_append] at hstart
    have hlen : o + (c :: u).length = o + 1 + u.length := by
      rw [List.length_cons, Nat.add_assoc, Nat.add_comm 1]
    rw [hlen]
    by_cases heq : c :: u = w
    · have hskip := wordOffsetsFrom_skip hu' w (o + 1) t
      rw [List.cons_append, wordOffsetsFrom, if_pos (hstart.mpr heq), hc]
      simp only [heq, if_true]
      rw [← hskip, ← heq, List.length_cons, Nat.add_sub_cancel]
    · rw [List.cons_append, wordOffsetsFrom, if_neg (hstart.not.mpr heq), hc,
        wordOffsetsFrom_inside hu']
      simp [heq]

/-- **A word stands as a whole where it is a token.**  The search compares at every offset at which
a word may start, and these are the offsets of tokens; what it finds is as long as the token, or a
word would go on behind it. -/
theorem wordOffsets_eq {w : Text} (hw : IsRun w) (t : Text) :
    wordOffsets w t = placesOf w (placed 0 t) := wordOffsetsFrom_eq hw t 0 false (Or.inl rfl)

end Text

/-! ## 2. Brackets -/

namespace Bracket

/-- Where the faulty brackets stand among some tokens, below the open brackets of the stack. -/
def faultsOf (stack : List (Char × α)) : List (Token × α) → List α
  | [] => stack.reverse.map Prod.snd
  | (.word _, _) :: ts => faultsOf stack ts
  | (.sign c, a) :: ts =>
    if isOpener c then faultsOf ((c, a) :: stack) ts
    else if isCloser c then
      match stack with
      | [] => a :: faultsOf [] ts
      | (opener, _) :: stack =>
        if closer? opener = some c then faultsOf stack ts else a :: faultsOf stack ts
    else faultsOf stack ts

theorem faultsOf_map (f : α → β) (ts : List (Token × α)) : ∀ (stack : List (Char × α)),
    faultsOf (stack.map fun p => (p.1, f p.2)) (ts.map fun p => (p.1, f p.2)) =
      (faultsOf stack ts).map f := by
  induction ts with
  | nil => intro stack; simp [faultsOf, ← List.map_reverse]
  | cons p ts ih =>
    intro stack
    obtain ⟨token, a⟩ := p
    cases token with
    | word w => exact ih stack
    | sign c =>
      rw [List.map_cons, faultsOf.eq_def, faultsOf.eq_def stack]
      dsimp only
      split
      · exact ih ((c, a) :: stack)
      · split
        · match stack with
          | [] => exact congrArg (f a :: ·) (ih [])
          | (opener, _) :: stack =>
            simp only [List.map_cons]
            split
            · exact ih stack
            · exact congrArg (f a :: ·) (ih stack)
        · exact ih stack

/-- Neither a word character nor a blank is a bracket. -/
theorem not_bracket {c : Char} (h : isWord c = true ∨ isBlank c = true) :
    isOpener c = false ∧ isCloser c = false := by
  constructor <;> refine Bool.eq_false_iff.mpr fun hb => ?_ <;>
    simp only [isOpener, isCloser, Bool.or_eq_true, beq_iff_eq] at hb <;>
    rcases hb with (rfl | rfl) | rfl <;> exact absurd h (by decide)

theorem faultsFrom_cons {c : Char} (h : isOpener c = false ∧ isCloser c = false)
    (stack : List Frame) (o : Nat) (t : Text) :
    faultsFrom stack o (c :: t) = faultsFrom stack (o + 1) t := by
  simp [faultsFrom, h.1, h.2]

/-- The brackets of the stack, each with its offset. -/
def framePlaces (stack : List Frame) : List (Char × Nat) := stack.map fun f => (f.opener, f.offset)

theorem faultsFrom_eq (t : Text) : ∀ (stack : List Frame) (o : Nat),
    faultsFrom stack o t = faultsOf (framePlaces stack) (placed o t) := by
  induction t using Text.token_induction with
  | nil =>
    intro stack o
    simp [faultsFrom, Text.placed, faultsOf, framePlaces, ← List.map_reverse, Function.comp_def]
  | blank c t hb ih =>
    intro stack o
    rw [faultsFrom_cons (not_bracket (Or.inr hb)), Text.placed_blank_cons hb, ih]
  | sign c t hw hb ih =>
    intro stack o
    rw [Text.placed_sign_cons hw hb, faultsFrom.eq_def, faultsOf.eq_def]
    dsimp only
    split
    · exact ih _ _
    · split
      · cases stack with
        | nil => exact congrArg (o :: ·) (ih _ _)
        | cons f stack =>
          simp only [framePlaces, List.map_cons]
          split
          · exact ih _ _
          · exact congrArg (o :: ·) (ih _ _)
      · exact ih _ _
  | word w t hw ht ih =>
    intro stack o
    have hskip : ∀ {w : Text}, (∀ c ∈ w, isWord c = true) → ∀ o,
        faultsFrom stack o (w ++ t) = faultsFrom stack (o + w.length) t := by
      intro w hw
      induction w with
      | nil => exact fun _ => rfl
      | cons c w ihw =>
        intro o
        rw [List.cons_append, faultsFrom_cons (not_bracket (Or.inl (hw c List.mem_cons_self))),
          ihw (fun d hd => hw d (List.mem_cons_of_mem _ hd)), List.length_cons, Nat.add_assoc,
          Nat.add_comm 1]
    rw [hskip hw.2, Text.placed_word_append hw ht, faultsOf, ih]

/-- **The faulty brackets of a text are those among its tokens.**  Every bracket is a token of its
own, and no other token is one. -/
theorem faults_eq (t : Text) : faults t = faultsOf [] (placed 0 t) := faultsFrom_eq t [] 0

end Bracket
end HypnoScript
