/-
# Spacing keeps the operators

No operator is joined, split or read otherwise in a spaced line, and each of its characters has the
mark that it had (`keepsOperators_spaced`): an operator stands between two operands after spacing
just if it did before.

Operators are read two characters at a time, so what matters at a cut is whether the characters at
it are the two of one operator: no space is put in there (`not_missing_inside`), and neither a space
nor a terminator makes an operator of what comes before it (`pair?_eq_none`).  Whether an operator
stands between operands is told by the last character in front that is no blank and the word it
ends; `Alike` says that two texts agree in these, and how far they may differ while one of them is
ahead by a space.
-/
import HypnoScript.Proofs.Spacing.Cells

namespace HypnoScript
namespace Spacing

/-! ## 1. Pieces -/

theorem pieces_cons {a : Char} {t : Text} (h : ∀ b ∈ t.head?, pair? a b = none) :
    pieces (a :: t) = single a :: pieces t := by
  cases t with
  | nil => rfl
  | cons b t => rw [pieces, h b rfl]

theorem pieces_pair {a b : Char} {p : Piece} (h : pair? a b = some p) (t : Text) :
    pieces (a :: b :: t) = p :: pieces t := by rw [pieces, h]

/-- What an operator of two characters is made of. -/
theorem pair?_eq_some {a b : Char} {p : Piece} (h : pair? a b = some p) :
    a ∈ operatorChars ∧ (b ∈ operatorChars ∨ b = '.') ∧
      ∃ spaced, p = .operator [a, b] spaced := by
  have hpairs : ∀ q ∈ spacedPairs ++ tightPairs,
      q.1 ∈ operatorChars ∧ (q.2 ∈ operatorChars ∨ q.2 = '.') :=
    List.forall_iff_forall_mem.mp (by decide)
  unfold pair? at h
  split at h
  · rename_i hm
    have := hpairs _ (List.mem_append_left _ hm)
    exact ⟨this.1, this.2, true, (Option.some.inj h).symm⟩
  · split at h
    · rename_i hm
      have := hpairs _ (List.mem_append_right _ hm)
      exact ⟨this.1, this.2, false, (Option.some.inj h).symm⟩
    · exact absurd h (by simp)

theorem pair?_eq_none_left {a : Char} (h : a ∉ operatorChars) (b : Char) : pair? a b = none := by
  cases hp : pair? a b with
  | none => rfl
  | some p => exact absurd (pair?_eq_some hp).1 h

theorem pair?_eq_none {b : Char} (h : b ∉ operatorChars) (hb : b ≠ '.') (a : Char) :
    pair? a b = none := by
  cases hp : pair? a b with
  | none => rfl
  | some p => exact absurd (pair?_eq_some hp).2.1 (not_or.mpr ⟨h, hb⟩)

theorem single_of_operatorChars {a : Char} (h : a ∉ operatorChars) : single a = .other a := by
  have hsub : ∀ x ∈ spacedSingles, x ∈ operatorChars :=
    List.forall_iff_forall_mem.mp (by decide)
  rw [single, if_neg fun hm => h (hsub a hm)]

theorem not_operatorChar_of_blank {a : Char} (h : Text.isBlank a = true) : a ∉ operatorChars :=
  fun hm => absurd (h.symm.trans (operatorChars_plain a hm).1) (by decide)

theorem pieces_blank_cons {a : Char} (h : Text.isBlank a = true) (t : Text) :
    pieces (a :: t) = .other a :: pieces t := by
  have ho := not_operatorChar_of_blank h
  rw [pieces_cons fun b _ => pair?_eq_none_left ho b, single_of_operatorChars ho]

/-- The operators do not see blanks at the start. -/
theorem operators_blank_cons {a : Char} (h : Text.isBlank a = true) (t : Text) :
    operators (a :: t) = operators t := by
  simp [operators, pieces_blank_cons h]

theorem operators_cons_congr {p : Piece} {t u t' u' : Text} (ht : pieces t' = p :: pieces t)
    (hu : pieces u' = p :: pieces u) (h : operators t = operators u) :
    operators t' = operators u' := by
  unfold operators at h ⊢
  rw [ht, hu, List.filterMap_cons, List.filterMap_cons, h]

/-! ## 2. What is in front of an operator -/

/-- The characters in front, from the nearest that is no blank on. -/
def inFront (before : Text) : Text := before.dropWhile Text.isBlank

/-- Two texts in front of `next` that end alike: with the same character, blanks apart, and the same
word.  Where a word goes on in `next`, the words in front go on alike as well. -/
structure Alike (u v next : Text) : Prop where
  head : (inFront u).head? = (inFront v).head?
  word : Text.leadingWord (inFront u) = Text.leadingWord (inFront v)
  joined : Text.headIsWord next = true → Text.leadingWord u = Text.leadingWord v

theorem Alike.refl (u next : Text) : Alike u u next := ⟨rfl, rfl, fun _ => rfl⟩

theorem inFront_blank {c : Char} (h : Text.isBlank c = true) (u : Text) :
    inFront (c :: u) = inFront u := by simp [inFront, h]

theorem inFront_ink {c : Char} (h : Text.isBlank c = false) (u : Text) :
    inFront (c :: u) = c :: u := by simp [inFront, h]

theorem leadingWord_nil_of_not_word {c : Char} (h : Text.isWord c = false) (u : Text) :
    Text.leadingWord (c :: u) = [] := by simp [Text.leadingWord, h]

theorem leadingWord_cons {c : Char} (h : Text.isWord c = true) (u : Text) :
    Text.leadingWord (c :: u) = c :: Text.leadingWord u := by simp [Text.leadingWord, h]

/-- The next character comes in front of both. -/
theorem Alike.cons {u v next : Text} {c : Char} (h : Alike u v (c :: next)) :
    Alike (c :: u) (c :: v) next := by
  cases hb : Text.isBlank c with
  | true =>
    have hw := Text.isWord_eq_false_of_isBlank hb
    refine ⟨?_, ?_, fun _ => ?_⟩
    · rw [inFront_blank hb, inFront_blank hb]; exact h.head
    · rw [inFront_blank hb, inFront_blank hb]; exact h.word
    · rw [leadingWord_nil_of_not_word hw, leadingWord_nil_of_not_word hw]
  | false =>
    have hjoin : Text.leadingWord (c :: u) = Text.leadingWord (c :: v) := by
      cases hw : Text.isWord c with
      | true =>
        have hjoined := h.joined (by simpa [Text.headIsWord] using hw)
        rw [leadingWord_cons hw, leadingWord_cons hw, hjoined]
      | false => rw [leadingWord_nil_of_not_word hw, leadingWord_nil_of_not_word hw]
    refine ⟨?_, ?_, fun _ => hjoin⟩
    · rw [inFront_ink hb, inFront_ink hb]; rfl
    · rw [inFront_ink hb, inFront_ink hb]; exact hjoin

/-- A space is put in where no word is parted. -/
theorem Alike.part {u v next : Text} {c : Char} (h : Alike u v (c :: next))
    (hw : Text.isWord c = true → Text.leadingWord u = []) : Alike u (' ' :: v) (c :: next) := by
  refine ⟨?_, ?_, fun hc => ?_⟩
  · rw [inFront_blank (by decide)]; exact h.head
  · rw [inFront_blank (by decide)]; exact h.word
  · rw [hw (by simpa [Text.headIsWord] using hc), leadingWord_nil_of_not_word (by decide)]

/-- A blank is taken out where no word goes on. -/
theorem Alike.erase {u v next : Text} {c : Char} (h : Alike u v (c :: next))
    (hb : Text.isBlank c = true) (hn : Text.headIsWord next = false) : Alike (c :: u) v next := by
  refine ⟨?_, ?_, fun hc => absurd (hn.symm.trans hc) Bool.false_ne_true⟩
  · rw [inFront_blank hb]; exact h.head
  · rw [inFront_blank hb]; exact h.word

theorem endsOperand_eq (t : Text) : endsOperand t = t.head?.any fun c =>
    Text.isWord c || c == ')' || c == ']' || c == '"' := by cases t <;> rfl

/-- A sign belongs to an exponent or not by the word in front alone: the digit and the letter are
both part of it. -/
theorem endsExponent_eq (t : Text) : endsExponent t = endsExponent (Text.leadingWord t) := by
  match t with
  | [] => rfl
  | [e] => cases h : Text.isWord e <;> simp [Text.leadingWord, h, endsExponent]
  | e :: d :: t =>
    cases he : Text.isWord e with
    | false =>
      rw [leadingWord_nil_of_not_word he]
      simp only [endsExponent, Bool.and_eq_false_iff, Bool.or_eq_false_iff, beq_eq_false_iff_ne]
      exact Or.inl ⟨by rintro rfl; exact absurd he (by decide),
        by rintro rfl; exact absurd he (by decide)⟩
    | true =>
      cases hd : Text.isWord d with
      | true => rw [leadingWord_cons he, leadingWord_cons hd]; rfl
      | false =>
        rw [leadingWord_cons he, leadingWord_nil_of_not_word hd]
        simp only [endsExponent, Bool.and_eq_false_iff]
        refine Or.inr (Bool.eq_false_iff.mpr fun h => ?_)
        exact absurd (hd.symm.trans (Text.isWord_of_isDecimal h)) Bool.false_ne_true

/-- **Texts that end alike have the same operators behind them between operands.** -/
theorem Alike.isBinary_eq {u v next : Text} (h : Alike u v next) (symbol : Text) :
    isBinary u symbol = isBinary v symbol := by
  have h1 : endsOperand (inFront u) = endsOperand (inFront v) := by
    rw [endsOperand_eq, endsOperand_eq, h.head]
  have h2 : wordBefore (inFront u) = wordBefore (inFront v) := by
    rw [wordBefore, wordBefore, h.word]
  have h3 : endsExponent (inFront u) = endsExponent (inFront v) := by
    rw [endsExponent_eq, endsExponent_eq (inFront v), h.word]
  simp only [isBinary]
  change (endsOperand (inFront u) && _ && _) = (endsOperand (inFront v) && _ && _)
  rw [h1]
  change (_ && !coreKeywords.contains (String.ofList (wordBefore (inFront u))) &&
    !(_ && endsExponent (inFront u))) = _
  rw [h2, h3]
  rfl

/-! ## 3. A spaced line -/

/-- The two characters of one operator lack no space between them. -/
theorem not_missing_inside {b c : Cell} {p : Piece} (hp : pair? b.code c.code = some p)
    (hb : b.mark.closes = false) (hc : c.mark.opens = false) : ¬ Missing b c := by
  obtain ⟨h1, h2, -⟩ := pair?_eq_some hp
  have hplain := operatorChars_plain _ h1
  have hword : Text.isWord c.code = false := by
    rcases h2 with h2 | h2
    · exact (operatorChars_plain _ h2).2.1
    · rw [h2]; decide
  simp only [List.mem_cons, List.not_mem_nil, or_false, not_or] at hplain
  intro h
  cases h with
  | beforeOperator opens => exact Bool.false_ne_true (hc.symm.trans opens)
  | afterOperator closes => exact Bool.false_ne_true (hb.symm.trans closes)
  | beforeWordOperator _ _ word | beforeType _ word | afterBlock _ word =>
    exact Bool.false_ne_true (hword.symm.trans word)
  | afterWordOperator word | beforeGroup word =>
    exact Bool.false_ne_true (hplain.2.1.symm.trans word)
  | afterComma comma => exact hplain.2.2.2.2.2.2.2.2.1 comma
  | beforeBlock _ block =>
    rcases h2 with h2 | h2
    · exact absurd (block ▸ h2) (by decide)
    · exact absurd (block.symm.trans h2) (by decide)

/-- A spaced line starts in the masked copy as the line did, or with a space or a terminator. -/
theorem head_code_spaced {d : Char} {before cs : List Cell} (hs : AllSound cs)
    (h : ((spaced before cs).map Cell.code).head? = some d) :
    (cs.map Cell.code).head? = some d ∨ d = ' ' ∨ d = ';' := by
  simp only [List.head?_map] at h ⊢
  rcases head_spaced before hs with e | e | ⟨t, _, e, hts, ht, -, -⟩
  · exact Or.inl (e ▸ h)
  · rw [e] at h
    exact Or.inr (Or.inl (Option.some.inj h).symm)
  · rw [e, Option.map_some, ht] at h
    exact Or.inr (Or.inr (Option.some.inj h).symm)

/-- What started no operator of two characters starts none in the spaced line. -/
theorem pieces_cons_spaced {a : Char} (before : List Cell) {cs : List Cell} (hs : AllSound cs)
    (h : ∀ b ∈ (cs.map Cell.code).head?, pair? a b = none) :
    pieces (a :: (spaced before cs).map Cell.code) =
      single a :: pieces ((spaced before cs).map Cell.code) := by
  refine pieces_cons fun d hd => ?_
  rcases head_code_spaced hs hd with e | rfl | rfl
  · exact h d e
  · exact pair?_eq_none (by decide) (by decide) a
  · exact pair?_eq_none (by decide) (by decide) a

theorem marksFrom_space (v : Text) (ps : List Piece) :
    marksFrom v (.other ' ' :: ps) = ⟨false, false⟩ :: marksFrom (' ' :: v) ps := rfl

/-- The marks of a piece of one character. -/
theorem marksFrom_single (v : Text) (a : Char) (ps : List Piece) :
    marksFrom v (single a :: ps) =
      (if a ∈ spacedSingles ∧ isBinary v [a] = true then ⟨true, true⟩ else ⟨false, false⟩) ::
        marksFrom (a :: v) ps := by
  unfold single
  split
  · rename_i h
    by_cases hb : isBinary v [a] = true <;> simp [marksFrom, spread, h, hb]
  · rename_i h
    simp [marksFrom, h]

/-- The marks of an operator of two characters. -/
theorem marksFrom_pair {a b : Char} {p : Piece} (hp : pair? a b = some p) (v : Text) :
    ∃ m : Mark × Mark, m.1.closes = false ∧ m.2.opens = false ∧
      ∀ (w : Text) (ps : List Piece), isBinary w [a, b] = isBinary v [a, b] →
        marksFrom w (p :: ps) = m.1 :: m.2 :: marksFrom (b :: a :: w) ps := by
  obtain ⟨-, -, spaced, rfl⟩ := pair?_eq_some hp
  by_cases hm : (spaced && isBinary v [a, b]) = true
  · refine ⟨(⟨true, false⟩, ⟨false, true⟩), rfl, rfl, fun w ps hw => ?_⟩
    simp [marksFrom, hw, hm, spread]
  · refine ⟨(⟨false, false⟩, ⟨false, false⟩), rfl, rfl, fun w ps hw => ?_⟩
    simp [marksFrom, hw, hm, List.replicate]

theorem codes_not_word_of_reaches {cs : List Cell} (hs : AllSound cs)
    (h : reachesTerminator cs = true) : Text.headIsWord (cs.map Cell.code) = false := by
  cases cs with
  | nil => rfl
  | cons c cs =>
    simp only [reachesTerminator, Bool.or_eq_true, Bool.and_eq_true, beq_iff_eq] at h
    simp only [Text.headIsWord, List.map_cons, List.head?_cons, Option.any_some]
    rcases h with h | ⟨h, -⟩
    · rw [h]; decide
    · exact Text.isWord_eq_false_of_isBlank (hs.head.code_blank (isBlank_of_isGapChar h))

/-- Behind a word that goes on in a cell, no space is put in front of the cell. -/
theorem leadingWord_of_missing {b c : Cell} {bs : List Cell} (hb : b.Sound) (hc : c.Sound)
    (hm : Missing b c) (hw : Text.isWord c.code = true) :
    Text.leadingWord ((b :: bs).map Cell.code) = [] := by
  cases h : Text.isWord b.code with
  | false => exact leadingWord_nil_of_not_word h _
  | true => exact absurd ((hm.not_between_words hb hc h).symm.trans hw) Bool.false_ne_true

/-- What spacing keeps of the operators in `cs`: the marks found in the masked copy of the cells
`out` that are written, behind the characters `v`, are those of its cells, and the operators are the
same. -/
structure KeepsOperators (v : Text) (cs out : List Cell) : Prop where
  marks : out.map Cell.mark = marksFrom v (pieces (out.map Cell.code))
  operators : operators (out.map Cell.code) = operators (cs.map Cell.code)

/-- A cell that starts no operator of two characters, in front of cells that keep theirs. -/
theorem keepsOperators_single {before cs : List Cell} {c : Cell} {v : Text} (hb : AllSound before)
    (hs : AllSound (c :: cs)) (hnone : ∀ b ∈ (cs.map Cell.code).head?, pair? c.code b = none)
    (hmark : c.mark = if c.code ∈ spacedSingles ∧ isBinary (before.map Cell.code) [c.code] = true
      then ⟨true, true⟩ else ⟨false, false⟩)
    (hv : Alike (before.map Cell.code) v (c.code :: cs.map Cell.code))
    (ih : ∀ w, Alike ((c :: before).map Cell.code) w (cs.map Cell.code) →
      KeepsOperators w cs (spaced (c :: before) cs)) :
    KeepsOperators v (c :: cs) (spaced before (c :: cs)) := by
  have hout := pieces_cons_spaced (c :: before) hs.tail hnone
  have hops := operators_cons_congr hout (pieces_cons hnone) (ih _ (Alike.refl _ _)).operators
  cases step_spaced before hs with
  | keep _ _ eq =>
    rw [eq]
    refine ⟨?_, hops⟩
    rw [List.map_cons, List.map_cons, hout, marksFrom_single, ← hv.isBinary_eq, ← hmark,
      (ih _ hv.cons).marks]
  | part b bs front missing eq =>
    subst front
    have hv' := hv.part (leadingWord_of_missing hb.head hs.head missing)
    rw [eq]
    refine ⟨?_, (operators_blank_cons (by decide) _).trans hops⟩
    rw [List.map_cons, List.map_cons, List.map_cons, List.map_cons]
    rw [show gapCell.code = ' ' from rfl, pieces_blank_cons (by decide), marksFrom_space, hout,
      marksFrom_single, ← hv'.isBinary_eq, ← hmark, (ih _ hv'.cons).marks]
    rfl
  | erase gap reaches _ _ _ _ _ _ eq =>
    have hblank := hs.head.code_blank (isBlank_of_isGapChar gap)
    have ih := ih _ (hv.erase hblank (codes_not_word_of_reaches hs.tail reaches))
    rw [eq]
    exact ⟨ih.marks, ih.operators.trans (operators_blank_cons hblank _).symm⟩

/-- **Spacing keeps the operators and their marks.**  The code is read operator by operator.
Between the characters of one operator no space is put in; in front of it and behind it spaces make
no difference, as it is judged by the last character in front that is no blank.  What the induction
carries is that the two texts read so far look alike from there (`Alike`). -/
theorem keepsOperators_spaced {before cs : List Cell} {v : Text} (hb : AllSound before)
    (hs : AllSound cs)
    (hmark : cs.map Cell.mark = marksFrom (before.map Cell.code) (pieces (cs.map Cell.code)))
    (hv : Alike (before.map Cell.code) v (cs.map Cell.code)) :
    KeepsOperators v cs (spaced before cs) := by
  generalize ht : cs.map Cell.code = t at hmark hv
  fun_induction pieces t generalizing before cs v with
  | case1 =>
    obtain rfl := List.map_eq_nil_iff.mp ht
    exact ⟨rfl, rfl⟩
  | case2 a =>
    obtain ⟨c, cs, rfl, rfl, hcs⟩ := List.map_eq_cons_iff.mp ht
    obtain rfl := List.map_eq_nil_iff.mp hcs
    rw [List.map_cons, marksFrom_single, List.cons.injEq] at hmark
    exact keepsOperators_single hb hs (by simp) hmark.1 hv fun w _ => ⟨rfl, rfl⟩
  | case3 a b t p hp ih =>
    obtain ⟨c, cs, rfl, rfl, hcs⟩ := List.map_eq_cons_iff.mp ht
    obtain ⟨d, cs, rfl, rfl, hds⟩ := List.map_eq_cons_iff.mp hcs
    obtain ⟨m, hm1, hm2, hm⟩ := marksFrom_pair hp v
    rw [List.map_cons, List.map_cons, hm _ _ (hv.isBinary_eq _), List.cons.injEq,
      List.cons.injEq] at hmark
    obtain ⟨hc, hd, hmark⟩ := hmark
    have hpair := pair?_eq_some hp
    -- The second character stays right behind the first.
    have hd' : spaced (c :: before) (d :: cs) = d :: spaced (d :: c :: before) cs := by
      cases step_spaced (c :: before) hs.tail with
      | keep _ _ eq => exact eq
      | part b' bs front missing _ =>
        rw [List.cons.injEq] at front
        rw [← front.1] at missing
        exact absurd missing (not_missing_inside hp (hc ▸ hm1) (hd ▸ hm2))
      | erase gap _ _ _ _ _ _ _ _ =>
        have := hs.tail.head.code_blank (isBlank_of_isGapChar gap)
        rcases hpair.2.1 with h | h
        · exact absurd h (not_operatorChar_of_blank this)
        · rw [h] at this
          exact absurd this (by decide)
    have ih {w : Text} (hw : Alike (before.map Cell.code) w (c.code :: d.code :: t)) :=
      ih ((hb.cons hs.head).cons hs.tail.head) hs.tail.tail hds hmark hw.cons.cons
    have hops := operators_cons_congr (pieces_pair hp _) (pieces_pair hp _) (ih hv).operators
    cases step_spaced before hs with
    | keep _ _ eq =>
      rw [eq, hd']
      refine ⟨?_, hops⟩
      simp only [List.map_cons]
      rw [pieces_pair hp, hm v _ rfl, ← hc, ← hd, (ih hv).marks]
    | part b' bs front missing eq =>
      subst front
      have hv' := hv.part (leadingWord_of_missing hb.head hs.head missing)
      have hbin := (hv'.isBinary_eq [c.code, d.code]).symm.trans (hv.isBinary_eq _)
      rw [eq, hd']
      refine ⟨?_, (operators_blank_cons (by decide) _).trans hops⟩
      simp only [List.map_cons]
      rw [show gapCell.code = ' ' from rfl, pieces_blank_cons (by decide), marksFrom_space,
        pieces_pair hp, hm _ _ hbin, ← hc, ← hd, (ih hv').marks]
      rfl
    | erase gap _ _ _ _ _ _ _ _ =>
      have := hs.head.code_blank (isBlank_of_isGapChar gap)
      exact absurd hpair.1 (not_operatorChar_of_blank this)
  | case4 a b t hp ih =>
    obtain ⟨c, cs, rfl, rfl, hcs⟩ := List.map_eq_cons_iff.mp ht
    rw [List.map_cons, marksFrom_single, List.cons.injEq] at hmark
    rw [← hcs] at hv
    refine keepsOperators_single hb hs ?_ hmark.1 hv fun w hw => ?_
    · rw [hcs]
      intro x hx
      rw [Option.mem_def, List.head?_cons, Option.some.injEq] at hx
      exact hx ▸ hp
    · exact ih (hb.cons hs.head) hs.tail hcs hmark.2 (hcs ▸ hw)

end Spacing
end HypnoScript
