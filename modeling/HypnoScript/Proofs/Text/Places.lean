/-
# Where the tokens of a text stand

`placed` gives the tokens of a text with their offsets, `located` those of some lines with the
numbers of the lines.  Both are the same tokens in the same order, and the line of an offset is the
number of its line (`map_line_placed`): so what two texts have in common line by line they have in
common as wholes.

Texts are taken apart here token by token (`token_induction`) and no longer character by character.
-/
import HypnoScript.Document
import HypnoScript.Proofs.Text.Lines
import HypnoScript.Proofs.Text.Tokens

namespace HypnoScript
namespace Text

/-! ## 1. The induction along the tokens -/

/-- A word on its own. -/
def IsRun (w : Text) : Prop := w ≠ [] ∧ ∀ c ∈ w, isWord c = true

instance (w : Text) : Decidable (IsRun w) :=
  decidable_of_iff (w ≠ [] ∧ w.all isWord = true) (by rw [IsRun, List.all_eq_true])

theorem ne_of_isWord {c d : Char} (hc : isWord c = true) (hd : isWord d = false) : c ≠ d := by
  rintro rfl
  rw [hc] at hd
  cases hd

theorem IsRun.newline_not_mem {w : Text} (hw : IsRun w) : '\n' ∉ w :=
  fun hmem => ne_of_isWord (hw.2 _ hmem) (by decide) rfl

theorem leadingWord_append_run {w t : Text} (hw : ∀ c ∈ w, isWord c = true)
    (ht : headIsWord t = false) : leadingWord (w ++ t) = w := by
  induction w with
  | nil => exact leadingWord_of_not_word ht
  | cons c w ih =>
    have hc : isWord c = true := hw c List.mem_cons_self
    have ih := ih fun d hd => hw d (List.mem_cons_of_mem _ hd)
    rw [leadingWord] at ih
    rw [leadingWord, List.cons_append, List.takeWhile_cons_of_pos hc, ih]

/-- Where no word begins, no word stands. -/
theorem afterStart?_of_not_word {w : Text} (hw : IsRun w) {t : Text} (ht : headIsWord t = false) :
    afterStart? w t = none := by
  obtain ⟨c, w', rfl⟩ := List.exists_cons_of_ne_nil hw.1
  have hc : isWord c = true := hw.2 c List.mem_cons_self
  cases t with
  | nil => rfl
  | cons d t =>
    have hd : isWord d = false := by simpa [headIsWord] using ht
    rw [afterStart?, if_neg (ne_of_isWord hc hd)]

/-- Behind the word that a text starts with, no word goes on. -/
theorem headIsWord_dropWhile (t : Text) : headIsWord (t.dropWhile isWord) = false := by
  have h := List.head?_dropWhile_not isWord t
  rw [headIsWord]
  cases hd : (t.dropWhile isWord).head? with
  | none => rfl
  | some d => rw [hd] at h; simpa using h

/-- A text in which a word begins is the word and what follows it. -/
theorem exists_word {t : Text} (h : headIsWord t = true) :
    ∃ w s, t = w ++ s ∧ IsRun w ∧ headIsWord s = false := by
  obtain ⟨c, cs, rfl⟩ : ∃ c cs, t = c :: cs := by
    cases t with
    | nil => exact absurd h (by decide)
    | cons c cs => exact ⟨c, cs, rfl⟩
  have hc : isWord c = true := by simpa [headIsWord] using h
  refine ⟨leadingWord (c :: cs), (c :: cs).dropWhile isWord,
    List.takeWhile_append_dropWhile.symm, ⟨by simp [leadingWord, hc], fun d hd => ?_⟩,
    headIsWord_dropWhile _⟩
  exact List.mem_takeWhile_imp hd

/-- To show something of every text, it is enough to put a blank, a sign or a whole word in front of
one. -/
@[elab_as_elim]
theorem token_induction {motive : Text → Prop} (nil : motive [])
    (blank : ∀ c t, isBlank c = true → motive t → motive (c :: t))
    (sign : ∀ c t, isWord c = false → isBlank c = false → motive t → motive (c :: t))
    (word : ∀ w t, IsRun w → headIsWord t = false → motive t → motive (w ++ t)) (t : Text) :
    motive t := by
  induction hn : t.length using Nat.strongRecOn generalizing t with
  | ind n ih =>
    subst hn
    cases t with
    | nil => exact nil
    | cons c cs =>
      cases hw : isWord c with
      | true =>
        obtain ⟨w, s, ht, hword, hs⟩ := exists_word (t := c :: cs) hw
        have hlt : s.length < (c :: cs).length := by
          have := List.length_pos_iff.mpr hword.1
          rw [ht, List.length_append]
          omega
        rw [ht]
        exact word w s hword hs (ih _ hlt s rfl)
      | false =>
        have ih := ih cs.length (Nat.lt_succ_self _) cs rfl
        cases hb : isBlank c with
        | true => exact blank c cs hb ih
        | false => exact sign c cs hw hb ih

/-! ## 2. Tokens with their offsets -/

/-- The tokens of a text that starts at `offset`, with their offsets. -/
def placed (offset : Nat) : Text → List (Token × Nat)
  | [] => []
  | c :: cs =>
    if isWord c then
      if headIsWord cs then
        (placed (offset + 1) cs).modifyHead fun p => (p.1.grow c, offset)
      else (.word [c], offset) :: placed (offset + 1) cs
    else if isBlank c then placed (offset + 1) cs
    else (.sign c, offset) :: placed (offset + 1) cs

theorem placed_blank_cons {c : Char} (h : isBlank c = true) (o : Nat) (t : Text) :
    placed o (c :: t) = placed (o + 1) t := by
  simp [placed, isWord_eq_false_of_isBlank h, h]

theorem placed_sign_cons {c : Char} (hw : isWord c = false) (hb : isBlank c = false) (o : Nat)
    (t : Text) : placed o (c :: t) = (.sign c, o) :: placed (o + 1) t := by
  simp [placed, hw, hb]

theorem placed_word_append {w t : Text} (hw : IsRun w) (ht : headIsWord t = false) (o : Nat) :
    placed o (w ++ t) = (.word w, o) :: placed (o + w.length) t := by
  obtain ⟨hne, hw⟩ := hw
  induction w generalizing o with
  | nil => exact absurd rfl hne
  | cons c w ih =>
    have hc : isWord c = true := hw c List.mem_cons_self
    rw [List.cons_append, placed, if_pos hc]
    cases w with
    | nil => simp [ht]
    | cons d w =>
      have hd : isWord d = true := hw d (by simp)
      have ih := ih (o + 1) (List.cons_ne_nil d w) fun x hx => hw x (List.mem_cons_of_mem _ hx)
      rw [if_pos (by simpa [headIsWord] using hd), ih]
      simp [Token.grow, Nat.add_assoc, Nat.add_comm 1]

theorem map_fst_placed (o : Nat) (t : Text) : (placed o t).map Prod.fst = tokens t := by
  induction t generalizing o with
  | nil => rfl
  | cons c cs ih =>
    rw [placed, tokens, ← ih (o + 1)]
    split
    · split
      · cases placed (o + 1) cs <;> rfl
      · rfl
    · split <;> rfl

theorem tokens_word_append {w t : Text} (hw : IsRun w) (ht : headIsWord t = false) :
    tokens (w ++ t) = .word w :: tokens t := by
  rw [← map_fst_placed 0, placed_word_append hw ht, List.map_cons, map_fst_placed]

/-- The words among the tokens consist of word characters. -/
theorem isRun_of_mem_placed {w : Text} {a : Nat} {t : Text} : ∀ {o : Nat},
    (Token.word w, a) ∈ placed o t → IsRun w := by
  induction t using token_induction with
  | nil => exact fun h => absurd h List.not_mem_nil
  | blank c t hb ih => intro o h; rw [placed_blank_cons hb] at h; exact ih h
  | sign c t hw hb ih =>
    intro o h
    rw [placed_sign_cons hw hb, List.mem_cons] at h
    exact h.elim (fun e => by simp at e) ih
  | word u t hu ht ih =>
    intro o h
    rw [placed_word_append hu ht, List.mem_cons] at h
    refine h.elim (fun e => ?_) ih
    simp only [Prod.mk.injEq, Token.word.injEq] at e
    exact e.1 ▸ hu

theorem placed_append {s : Text} (h : headIsWord s = false) (o : Nat) (t : Text) :
    placed o (t ++ s) = placed o t ++ placed (o + t.length) s := by
  induction t using token_induction generalizing o with
  | nil => rfl
  | blank c t hb ih =>
    rw [List.cons_append, placed_blank_cons hb, placed_blank_cons hb, ih, List.length_cons,
      Nat.add_assoc, Nat.add_comm 1]
  | sign c t hw hb ih =>
    rw [List.cons_append, placed_sign_cons hw hb, placed_sign_cons hw hb, ih, List.length_cons,
      Nat.add_assoc, Nat.add_comm 1]
    rfl
  | word w t hw ht ih =>
    rw [List.append_assoc, placed_word_append hw (by rw [headIsWord_append h, ht]),
      placed_word_append hw ht, ih, List.length_append, Nat.add_assoc]
    rfl

/-- Offsets are counted from where the text starts. -/
theorem placed_add (k o : Nat) (t : Text) :
    placed (o + k) t = (placed o t).map fun p => (p.1, p.2 + k) := by
  induction t using token_induction generalizing o with
  | nil => rfl
  | blank c t hb ih =>
    rw [placed_blank_cons hb, placed_blank_cons hb, Nat.add_right_comm, ih]
  | sign c t hw hb ih =>
    rw [placed_sign_cons hw hb, placed_sign_cons hw hb, Nat.add_right_comm, ih]
    rfl
  | word w t hw ht ih =>
    rw [placed_word_append hw ht, placed_word_append hw ht, Nat.add_right_comm, ih]
    rfl

/-- No token stands behind the end of the text. -/
theorem lt_of_mem_placed {p : Token × Nat} {t : Text} : ∀ {o : Nat}, p ∈ placed o t →
    o ≤ p.2 ∧ p.2 < o + t.length := by
  induction t using token_induction with
  | nil => exact fun h => absurd h List.not_mem_nil
  | blank c t hb ih =>
    intro o h
    rw [placed_blank_cons hb] at h
    have := ih h
    rw [List.length_cons]
    omega
  | sign c t hw hb ih =>
    intro o h
    rw [placed_sign_cons hw hb, List.mem_cons] at h
    rw [List.length_cons]
    rcases h with rfl | h
    · exact ⟨Nat.le_refl _, by simp⟩
    · have := ih h
      omega
  | word w t hw ht ih =>
    intro o h
    have hpos := List.length_pos_iff.mpr hw.1
    rw [placed_word_append hw ht, List.mem_cons] at h
    rw [List.length_append]
    rcases h with rfl | h
    · simp only
      omega
    · have := ih h
      omega

/-- Tokens stand one behind the other. -/
theorem pairwise_placed (t : Text) : ∀ (o : Nat), (placed o t).Pairwise (·.2 < ·.2) := by
  induction t using token_induction with
  | nil => exact fun _ => .nil
  | blank c t hb ih => intro o; rw [placed_blank_cons hb]; exact ih (o + 1)
  | sign c t hw hb ih =>
    intro o
    rw [placed_sign_cons hw hb]
    refine .cons (fun p hp => ?_) (ih (o + 1))
    exact (lt_of_mem_placed hp).1
  | word w t hw ht ih =>
    intro o
    rw [placed_word_append hw ht]
    refine .cons (fun p hp => ?_) (ih (o + w.length))
    have := List.length_pos_iff.mpr hw.1
    have := (lt_of_mem_placed hp).1
    simp only
    omega

/-! ## 3. Tokens with their lines -/

/-- The tokens of some lines, the first of which has number `n`, with the numbers of the lines. -/
def located (n : Nat) : List Text → List (Token × Nat)
  | [] => []
  | l :: ls => (tokens l).map (fun token => (token, n)) ++ located (n + 1) ls

/-- The number of the line of an offset. -/
def lineOf (ls : List Text) (offset : Nat) : Nat := (Document.positionIn ls offset).line

/-- **Tokens at their offsets are tokens in their lines.**  No token runs over the end of a line, so
the tokens of a text are those of its lines, and the line of each is the one that its offset is on.
-/
theorem map_line_placed : ∀ {ls : List Text} (n : Nat), ls ≠ [] → (∀ l ∈ ls, '\n' ∉ l) →
    (placed 0 (joinLines ls)).map (fun p => (p.1, n + lineOf ls p.2)) = located n ls
  | [], _, h, _ => absurd rfl h
  | [l], n, _, _ => by
    have h : (placed 0 l).map (fun p => (p.1, n + lineOf [l] p.2)) =
        (placed 0 l).map fun p => (p.1, n) := by
      refine List.map_congr_left fun p hp => ?_
      rw [lineOf, Document.positionIn, if_pos (Or.inr rfl)]
      rfl
    rw [joinLines, h, located, located, List.append_nil, ← map_fst_placed 0 l, List.map_map]
    rfl
  | l :: l' :: ls, n, _, hl => by
    have ih := map_line_placed (n + 1) (List.cons_ne_nil l' ls) (List.forall_mem_cons.mp hl).2
    have hfirst : (placed 0 l).map (fun p => (p.1, n + lineOf (l :: l' :: ls) p.2)) =
        (placed 0 l).map fun p => (p.1, n) := by
      refine List.map_congr_left fun p hp => ?_
      have := (lt_of_mem_placed hp).2
      rw [lineOf, Document.positionIn, if_pos (Or.inl (by omega))]
      rfl
    have hrest (o : Nat) : lineOf (l :: l' :: ls) (o + (l.length + 1)) =
        lineOf (l' :: ls) o + 1 := by
      have hne : ¬(o + (l.length + 1) ≤ l.length ∨ l' :: ls = []) := by simp; omega
      rw [lineOf, Document.positionIn, if_neg hne, Nat.add_sub_cancel]
      rfl
    rw [joinLines_cons l (List.cons_ne_nil _ _), placed_append (by rfl), List.map_append, hfirst,
      placed_blank_cons (by decide), Nat.zero_add, located, ← ih, ← map_fst_placed 0 l,
      List.map_map, ← Nat.zero_add (l.length + 1), placed_add, List.map_map]
    congr 1
    refine List.map_congr_left fun p _ => ?_
    simp only [Function.comp_apply, hrest]
    rw [Nat.add_right_comm, Nat.add_assoc]

end Text
end HypnoScript
