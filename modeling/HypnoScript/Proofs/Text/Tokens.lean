/-
# The tokens of a line of code

The *tokens* of a text are its words, each as long as it can be, and the other characters that are
no blanks.  Blanks are only seen where they part two words, so tokens are what spacing has to keep:
the first word of a line, and its ink, can be read off them.

Everything about the tokens of longer texts follows from `tokens_append`: where no word goes on, the
tokens of two texts are those of the one and then those of the other.
-/
import HypnoScript.Proofs.Text.Blanks

namespace HypnoScript

/-- A word, or a character that belongs to none. -/
inductive Token where
  | word (w : Text)
  | sign (c : Char)
  deriving DecidableEq, Repr

namespace Token

/-- The characters of a token. -/
def text : Token → Text
  | .word w => w
  | .sign c => [c]

/-- The token with a word character more in front. -/
def grow (c : Char) : Token → Token
  | .word w => .word (c :: w)
  | .sign d => .sign d

/-- The word that the token is, if it is one. -/
def word? : Token → Option Text
  | .word w => some w
  | .sign _ => none

end Token

namespace Text

/-- The tokens of a text, from the left. -/
def tokens : Text → List Token
  | [] => []
  | c :: cs =>
    if isWord c then
      if headIsWord cs then (tokens cs).modifyHead (Token.grow c) else .word [c] :: tokens cs
    else if isBlank c then tokens cs
    else .sign c :: tokens cs

/-- The words of a text: its runs of word characters, each as long as it can be. -/
def words (t : Text) : List Text := (tokens t).filterMap Token.word?

/-! ## 1. One character at a time -/

theorem tokens_blank_cons {c : Char} (h : isBlank c = true) (t : Text) :
    tokens (c :: t) = tokens t := by
  simp [tokens, isWord_eq_false_of_isBlank h, h]

theorem tokens_sign_cons {c : Char} (hw : isWord c = false) (hb : isBlank c = false) (t : Text) :
    tokens (c :: t) = .sign c :: tokens t := by
  simp [tokens, hw, hb]

/-- A character more in front of two texts with the same tokens, where a word goes on in both or in
none. -/
theorem tokens_cons_congr {c : Char} {t u : Text}
    (hw : isWord c = true → headIsWord t = headIsWord u) (h : tokens t = tokens u) :
    tokens (c :: t) = tokens (c :: u) := by
  rw [tokens, tokens, h]
  cases hc : isWord c with
  | false => rfl
  | true => rw [hw hc]

theorem headIsWord_append {t s : Text} (h : headIsWord s = false) :
    headIsWord (t ++ s) = headIsWord t := by
  cases t with
  | nil => exact h
  | cons c cs => rfl

theorem leadingWord_of_not_word {t : Text} (h : headIsWord t = false) : leadingWord t = [] := by
  cases t with
  | nil => rfl
  | cons c t => simpa [leadingWord, headIsWord] using h

theorem startsName_of_not_word {t : Text} (h : headIsWord t = false) :
    t.head?.any startsName = false := by
  cases t with
  | nil => rfl
  | cons c t =>
    have hc : isWord c = false := h
    simp [startsName, hc]

/-- A text in which a word goes on starts with a word. -/
theorem tokens_of_headIsWord {t : Text} (h : headIsWord t = true) :
    ∃ w ts, tokens t = .word w :: ts ∧ w = leadingWord t := by
  induction t with
  | nil => exact absurd h (by decide)
  | cons c cs ih =>
    have hc : isWord c = true := by simpa [headIsWord] using h
    cases hcs : headIsWord cs with
    | true =>
      obtain ⟨w, ts, hts, hw⟩ := ih hcs
      exact ⟨c :: w, ts, by simp [tokens, hc, hcs, hts, Token.grow], by simp [leadingWord, hc, hw]⟩
    | false =>
      refine ⟨[c], tokens cs, by simp [tokens, hc, hcs], ?_⟩
      cases cs with
      | nil => simp [leadingWord, hc]
      | cons d ds =>
        have hd : isWord d = false := by simpa [headIsWord] using hcs
        simp [leadingWord, hc, hd]

/-- A word at the start of a text stands there as a whole just if it is the word that the text
starts with. -/
theorem starts_iff {w : Text} (hw : ∀ c ∈ w, isWord c = true) (t : Text) :
    ((afterStart? w t).any fun rest => !rest.headIsWord) = true ↔ leadingWord t = w := by
  induction w generalizing t with
  | nil =>
    cases t with
    | nil => simp [afterStart?, headIsWord, leadingWord]
    | cons c t => cases hc : isWord c <;> simp [afterStart?, headIsWord, leadingWord, hc]
  | cons a w ih =>
    have ha : isWord a = true := hw a List.mem_cons_self
    have ih := ih fun c hc => hw c (List.mem_cons_of_mem _ hc)
    cases t with
    | nil => simp [afterStart?, leadingWord]
    | cons c t =>
      by_cases hac : a = c
      · subst hac
        rw [leadingWord, List.takeWhile_cons_of_pos ha, List.cons.injEq, ← leadingWord, ← ih t]
        simp [afterStart?]
      · have hne : leadingWord (c :: t) ≠ a :: w := by
          intro h
          cases hc : isWord c with
          | true =>
            rw [leadingWord, List.takeWhile_cons_of_pos hc, List.cons.injEq] at h
            exact hac h.1.symm
          | false => simp [leadingWord, hc] at h
        simp [afterStart?, hac, hne]

/-! ## 2. Longer texts -/

/-- **Where no word goes on, tokens are those of the one text and then those of the other.**  A word
may go on when it ends the one text and a word character starts the other; then the two halves would
be one token. -/
theorem tokens_append {t s : Text} (h : headIsWord s = false) :
    tokens (t ++ s) = tokens t ++ tokens s := by
  induction t with
  | nil => rfl
  | cons c cs ih =>
    rw [List.cons_append, tokens, tokens, ih, headIsWord_append h]
    split
    · split
      · obtain ⟨w, ts, hts, -⟩ := tokens_of_headIsWord ‹headIsWord cs = true›
        rw [hts]
        rfl
      · rfl
    · split <;> rfl

theorem tokens_of_blank {s : Text} (h : ∀ c ∈ s, isBlank c = true) : tokens s = [] := by
  induction s with
  | nil => rfl
  | cons c s ih =>
    rw [tokens_blank_cons (h c List.mem_cons_self), ih fun d hd => h d (List.mem_cons_of_mem _ hd)]

theorem headIsWord_of_blank {s : Text} (h : ∀ c ∈ s, isBlank c = true) :
    headIsWord s = false := by
  cases s with
  | nil => rfl
  | cons c s => simpa [headIsWord] using isWord_eq_false_of_isBlank (h c List.mem_cons_self)

/-- Blanks at the start are not seen. -/
theorem tokens_blank_append {s : Text} (h : ∀ c ∈ s, isBlank c = true) (t : Text) :
    tokens (s ++ t) = tokens t := by
  induction s with
  | nil => rfl
  | cons c s ih =>
    rw [List.cons_append, tokens_blank_cons (h c List.mem_cons_self),
      ih fun d hd => h d (List.mem_cons_of_mem _ hd)]

/-- Blanks at either end are not seen. -/
theorem tokens_between {s u : Text} (hs : Gap s) (hu : Gap u) (t : Text) :
    tokens (s ++ (t ++ u)) = tokens t := by
  rw [tokens_blank_append hs.all, tokens_append (headIsWord_of_blank hu.all),
    tokens_of_blank hu.all, List.append_nil]

/-! ## 3. What is read off the tokens -/

/-- The word that comes first, empty if a sign comes first. -/
def firstWord : List Token → Text
  | .word w :: _ => w
  | _ => []

/-- The word at the start of a text is its first token. -/
theorem leadingWord_trimLeft (t : Text) : leadingWord (trimLeft t) = firstWord (tokens t) := by
  induction t with
  | nil => rfl
  | cons c cs ih =>
    cases hb : isBlank c with
    | true => simpa [trimLeft, hb, tokens_blank_cons hb] using ih
    | false =>
      have ht : trimLeft (c :: cs) = c :: cs := List.dropWhile_cons_of_neg (by simp [hb])
      rw [ht]
      cases hw : isWord c with
      | true =>
        obtain ⟨w, ts, hts, hlead⟩ := tokens_of_headIsWord (t := c :: cs) (by simpa [headIsWord])
        rw [hts, ← hlead]
        rfl
      | false =>
        rw [tokens_sign_cons hw hb]
        simp [leadingWord, hw, firstWord]

/-- The word at the start of a text that is cut at its ends is its first token. -/
theorem leadingWord_trim {t : Text} (hn : '\n' ∉ t) :
    leadingWord (trim t) = firstWord (tokens t) := by
  obtain ⟨s, u, ht, hs, hu, hhead, -⟩ := trim_spec hn
  have htok : tokens t = tokens (trim t) := by
    conv_lhs => rw [ht]
    exact tokens_between hs hu _
  rw [htok, ← leadingWord_trimLeft, trimLeft_of_head hhead]

/-- The tokens hold all the ink. -/
theorem flatMap_text_tokens (t : Text) : (tokens t).flatMap Token.text = ink t := by
  induction t with
  | nil => rfl
  | cons c cs ih =>
    cases hb : isBlank c with
    | true => simpa [tokens_blank_cons hb, ink, hb] using ih
    | false =>
      cases hw : isWord c with
      | false =>
        rw [tokens_sign_cons hw hb, List.flatMap_cons, ih]
        simp [Token.text, ink, hb]
      | true =>
        cases hcs : headIsWord cs with
        | true =>
          obtain ⟨w, ts, hts, -⟩ := tokens_of_headIsWord hcs
          rw [hts] at ih
          simp only [List.flatMap_cons, Token.text] at ih
          simp [tokens, hw, hcs, hts, Token.grow, Token.text, ih, ink, hb]
        | false => simp [tokens, hw, hcs, Token.text, ih, ink, hb]

end Text
end HypnoScript
