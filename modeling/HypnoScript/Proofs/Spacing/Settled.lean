/-
# A spaced line stays as it is

Cells are `Settled` when no cut of them lacks a space and no blank of them is to be taken out; then
spacing writes them as they are (`spaced_of_settled`).  What spacing writes is settled
(`settled_spaced`), so a second pass finds nothing to do.

A cut is judged by the cell and the word in front of it, whether a point stands in front of that
word, and the cell and the word behind it (`lacksSpace_congr`).  `Facing` says that two lines agree
in front of a cut in these.
-/
import HypnoScript.Proofs.Spacing.Marks
import HypnoScript.Proofs.Text.Tokens

namespace HypnoScript
namespace Spacing

/-! ## 1. Settled cells -/

/-- No cut lacks a space, and nothing is to be taken out. -/
def Settled (before : List Cell) : List Cell → Prop
  | [] => True
  | c :: cs =>
    Cut.lacksSpace ⟨before, c :: cs⟩ = false ∧ isErased before c cs = false ∧
      Settled (c :: before) cs

theorem spaced_of_settled : ∀ {before cs : List Cell}, Settled before cs → spaced before cs = cs
  | _, [], _ => rfl
  | before, c :: cs, ⟨hl, he, h⟩ => by
    rw [spaced, hl, he, spaced_of_settled h]
    rfl

/-! ## 2. What a cut is judged by -/

/-- The characters in front of the word that some characters end with, given from the nearest on. -/
def beyondWord (before : Text) : Text := before.drop (Text.leadingWord before).length

/-- Two lines that look alike from a cut: the same cell, the same word and a point in front of that
word or none. -/
structure Facing (before before' : List Cell) : Prop where
  head : before.head? = before'.head?
  word : Text.leadingWord (before.map Cell.code) = Text.leadingWord (before'.map Cell.code)
  point : (beyondWord (before.map Cell.code)).head? = some '.' ↔
    (beyondWord (before'.map Cell.code)).head? = some '.'

theorem Facing.refl (before : List Cell) : Facing before before := ⟨rfl, rfl, Iff.rfl⟩

/-- **A cut is judged by what it faces.**  All rules look at the nearest cells and at the words that
end and start there, and at nothing further away. -/
theorem lacksSpace_congr {before before' : List Cell} {c : Cell} {cs cs' : List Cell}
    (h : Facing before before')
    (hw : Text.leadingWord ((c :: cs).map Cell.code) =
      Text.leadingWord ((c :: cs').map Cell.code)) :
    Cut.lacksSpace ⟨before, c :: cs⟩ = Cut.lacksSpace ⟨before', c :: cs'⟩ := by
  have hpoint : ((beyondWord (before.map Cell.code)).head? != some '.') =
      ((beyondWord (before'.map Cell.code)).head? != some '.') := by
    rw [Bool.eq_iff_iff, bne_iff_ne, bne_iff_ne]
    exact not_congr h.point
  have hends (words : List String) : Cut.endsWordOf ⟨before, c :: cs⟩ words =
      Cut.endsWordOf ⟨before', c :: cs'⟩ words := by
    simp only [Cut.endsWordOf, Cut.codeBefore, wordBefore, List.length_reverse]
    rw [← beyondWord, ← beyondWord, h.word, hpoint]
  have hoperand : endsOperand (before.map Cell.code) = endsOperand (before'.map Cell.code) := by
    rw [endsOperand_eq, endsOperand_eq, List.head?_map, List.head?_map, h.head]
  rw [List.map_cons, List.map_cons] at hw
  simp only [Cut.lacksSpace, Cut.atOperator, Cut.atWordOperator, Cut.afterComma, Cut.beforeGroup,
    Cut.beforeType, Cut.beforeBlock, Cut.afterBlock, Cut.looseBefore, Cut.looseAfter,
    Cut.startsWordOf, Cut.follows, Cut.precedes, Cut.codeBefore, Cut.codeAfter, Text.headIsWord,
    hends, hoperand, h.head, hw, List.map_cons, List.head?_cons]

theorem beyondWord_not_word {c : Char} (h : Text.isWord c = false) (t : Text) :
    beyondWord (c :: t) = c :: t := by
  rw [beyondWord, leadingWord_nil_of_not_word h]
  rfl

theorem beyondWord_word {c : Char} (h : Text.isWord c = true) (t : Text) :
    beyondWord (c :: t) = beyondWord t := by
  rw [beyondWord, leadingWord_cons h]
  rfl

/-- A cell that is no word character hides what is in front of it. -/
theorem Facing.of_not_word {c : Cell} (h : Text.isWord c.code = false)
    (before before' : List Cell) : Facing (c :: before) (c :: before') := by
  refine ⟨rfl, ?_, ?_⟩
  · rw [List.map_cons, List.map_cons, leadingWord_nil_of_not_word h,
      leadingWord_nil_of_not_word h]
  · rw [List.map_cons, List.map_cons, beyondWord_not_word h, beyondWord_not_word h]
    exact Iff.rfl

theorem Facing.cons {before before' : List Cell} (h : Facing before before') (c : Cell) :
    Facing (c :: before) (c :: before') := by
  cases hw : Text.isWord c.code with
  | false => exact .of_not_word hw before before'
  | true =>
    refine ⟨rfl, ?_, ?_⟩
    · rw [List.map_cons, List.map_cons, leadingWord_cons hw, leadingWord_cons hw, h.word]
    · rw [List.map_cons, List.map_cons, beyondWord_word hw, beyondWord_word hw]
      exact h.point

/-- No space is put in between a point and a word. -/
theorem Missing.not_behind_point {b c : Cell} (hb : b.Sound) (hc : c.Sound) (h : Missing b c)
    (hw : Text.isWord c.code = true) : b.code ≠ '.' := by
  intro e
  cases h with
  | beforeOperator opens =>
    have h := (operatorChars_plain _ (hc.marked (Or.inl opens))).2.1
    exact Bool.false_ne_true (h.symm.trans hw)
  | afterOperator closes => exact absurd (e ▸ hb.marked (Or.inr closes)) (by decide)
  | beforeWordOperator _ point => exact point e
  | afterWordOperator word | beforeGroup word => exact absurd (e ▸ word) (by decide)
  | afterComma comma | beforeType comma | afterBlock comma =>
    exact absurd (e.symm.trans comma) (by decide)
  | beforeBlock _ block => exact absurd (block ▸ hw) (by decide)

/-- A cell that gets a space in front of it faces the same as without the space. -/
theorem Facing.part {b c : Cell} {bs before' : List Cell} (hb : b.Sound) (hc : c.Sound)
    (h : Missing b c) : Facing (c :: b :: bs) (c :: gapCell :: before') := by
  cases hw : Text.isWord c.code with
  | false => exact .of_not_word hw _ _
  | true =>
    have hgap : Text.isWord gapCell.code = false := by decide
    have hbw : Text.isWord b.code = false := by
      refine Bool.eq_false_iff.mpr fun hbw => ?_
      exact absurd ((h.not_between_words hb hc hbw).symm.trans hw) Bool.false_ne_true
    refine ⟨rfl, ?_, ?_⟩
    · simp only [List.map_cons]
      rw [leadingWord_cons hw, leadingWord_cons hw, leadingWord_nil_of_not_word hbw,
        leadingWord_nil_of_not_word hgap]
    · simp only [List.map_cons]
      rw [beyondWord_word hw, beyondWord_word hw, beyondWord_not_word hbw,
        beyondWord_not_word hgap]
      simp [h.not_behind_point hb hc hw, gapCell]

/-! ## 3. What spacing writes is settled -/

/-- Spacing does not change a word, nor whether one goes on behind a word character. -/
theorem leadingWord_spaced {b : Cell} {bs cs : List Cell} (hb : b.Sound) (hs : AllSound cs)
    (hw : Text.isWord b.code = true) :
    Text.leadingWord ((spaced (b :: bs) cs).map Cell.code) =
      Text.leadingWord (cs.map Cell.code) := by
  induction cs generalizing b bs with
  | nil => rfl
  | cons c cs ih =>
    cases step_spaced (b :: bs) hs with
    | keep _ _ eq =>
      rw [eq, List.map_cons, List.map_cons]
      cases hc : Text.isWord c.code with
      | false => rw [leadingWord_nil_of_not_word hc, leadingWord_nil_of_not_word hc]
      | true => rw [leadingWord_cons hc, leadingWord_cons hc, ih hs.head hs.tail hc]
    | part b' bs' front missing eq =>
      rw [List.cons.injEq] at front
      rw [← front.1] at missing
      rw [eq, List.map_cons, List.map_cons, List.map_cons, leadingWord_nil_of_not_word (by decide),
        leadingWord_nil_of_not_word (missing.not_between_words hb hs.head hw)]
    | erase gap _ _ t ts _ terminator next eq =>
      have hblank := hs.head.code_blank (isBlank_of_isGapChar gap)
      rw [eq, next, List.map_cons, List.map_cons,
        leadingWord_nil_of_not_word (terminator ▸ by decide),
        leadingWord_nil_of_not_word (Text.isWord_eq_false_of_isBlank hblank)]

/-- In front of a cell that gets a space, no terminator is reached. -/
theorem Missing.not_reachesTerminator {b c : Cell} (hc : c.Sound) (h : Missing b c)
    (cs : List Cell) : isGapChar c.raw = false ∧ reachesTerminator (c :: cs) = false := by
  have hgap : isGapChar c.raw = false := by
    refine Bool.eq_false_iff.mpr fun hg => ?_
    exact Bool.false_ne_true ((h.raw_after hc).symm.trans (isBlank_of_isGapChar hg))
  exact ⟨hgap, by simp [reachesTerminator, hgap, h.code_ne_terminator hc]⟩

/-- A terminator that is reached over blanks in a spaced line was reached before. -/
theorem reachesTerminator_of_spaced {cs : List Cell} : ∀ {before : List Cell}, AllSound cs →
    reachesTerminator (spaced before cs) = true → reachesTerminator cs = true := by
  induction cs with
  | nil => exact fun _ h => h
  | cons c cs ih =>
    intro before hs h
    cases step_spaced before hs with
    | keep _ _ eq =>
      simp only [eq, reachesTerminator, Bool.or_eq_true, Bool.and_eq_true] at h ⊢
      exact h.imp_right fun h => ⟨h.1, ih hs.tail h.2⟩
    | part b bs _ missing eq =>
      have hr := (missing.not_reachesTerminator hs.head (spaced (c :: before) cs)).2
      rw [eq, reachesTerminator, hr] at h
      simp [gapCell] at h
    | erase gap reaches => simp [reachesTerminator, gap, reaches]

/-- What is known of the cells `before'` that have been written when the cells `cs` are left behind
`before`: a cut faces the same behind both, or blanks have been taken out and the terminator is
next. -/
structure Written (before before' cs : List Cell) : Prop where
  text : before.any (!isGapChar ·.raw) = before'.any (!isGapChar ·.raw)
  facing : Facing before before' ∨
    reachesTerminator cs = true ∧ before.any (!isGapChar ·.raw) = true

/-- **What spacing writes is settled.**  A cut where a space was put in lacks none on either side of
it, as it is next to a blank now.  Any other cut faces what it faced before, for what was written in
front of it ends in the same cell and word; the one exception is a terminator behind blanks that
were taken out, and no rule puts a space in front of a terminator. -/
theorem settled_spaced {cs : List Cell} : ∀ {before before' : List Cell}, AllSound before →
    AllSound cs → Written before before' cs → Settled before' (spaced before cs) := by
  induction cs with
  | nil => exact fun _ _ _ => trivial
  | cons c cs ih =>
    intro before before' hb hs ⟨htext, hfacing⟩
    have hc := hs.head
    have ih {before'} (h : Written (c :: before) before' cs) := ih (hb.cons hc) hs.tail h
    have herased : isErased before c cs = false →
        isErased before' c (spaced (c :: before) cs) = false := by
      intro h
      refine Bool.eq_false_iff.mpr fun he => Bool.false_ne_true (h.symm.trans ?_)
      simp only [isErased, Bool.and_eq_true] at he ⊢
      exact ⟨⟨he.1.1, reachesTerminator_of_spaced hs.tail he.1.2⟩, htext ▸ he.2⟩
    have hany : (c :: before).any (!isGapChar ·.raw) =
        (c :: before').any (!isGapChar ·.raw) := by
      rw [List.any_cons, List.any_cons, htext]
    cases step_spaced before hs with
    | keep lacks erased eq =>
      rw [eq]
      rcases hfacing with hf | ⟨hr, ht⟩
      · refine ⟨?_, herased erased, ih ⟨hany, Or.inl (hf.cons c)⟩⟩
        rw [← lacks]
        refine (lacksSpace_congr hf ?_).symm
        rw [List.map_cons, List.map_cons]
        cases hw : Text.isWord c.code with
        | false => rw [leadingWord_nil_of_not_word hw, leadingWord_nil_of_not_word hw]
        | true => rw [leadingWord_cons hw, leadingWord_cons hw, leadingWord_spaced hc hs.tail hw]
      · -- A cell that is kept though the terminator is next is the terminator.
        have hterm : c.code = ';' := by
          simp only [reachesTerminator, Bool.or_eq_true, Bool.and_eq_true, beq_iff_eq] at hr
          refine hr.resolve_right fun h => Bool.false_ne_true (erased.symm.trans ?_)
          simp only [isErased, h.1, h.2, ht, Bool.and_self]
        have hword : Text.isWord c.code = false := by rw [hterm]; decide
        refine ⟨not_lacksSpace fun b bs _ hm => hm.code_ne_terminator hc hterm, herased erased,
          ih ⟨hany, Or.inl (.of_not_word hword before before')⟩⟩
    | part b bs front missing eq =>
      obtain ⟨hgap, hr⟩ := missing.not_reachesTerminator hc (spaced (c :: before) cs)
      have hblank : Text.isBlank gapCell.raw = true := by decide
      rw [eq]
      subst front
      refine ⟨not_lacksSpace fun x xs _ hm => ?_, ?_, not_lacksSpace fun x xs hx hm => ?_, ?_,
        ih ⟨?_, Or.inl (.part hb.head hc missing)⟩⟩
      · exact Bool.false_ne_true ((hm.raw_after gapCell_sound).symm.trans hblank)
      · rw [isErased, hr, Bool.and_false, Bool.false_and]
      · rw [List.cons.injEq] at hx
        rw [← hx.1] at hm
        exact Bool.false_ne_true ((hm.raw_before gapCell_sound).symm.trans hblank)
      · rw [isErased, hgap, Bool.false_and, Bool.false_and]
      · simp only [List.any_cons, hgap, Bool.not_false, Bool.true_or]
    | erase gap reaches text t ts sound terminator next eq =>
      rw [eq]
      have hskip : (c :: before).any (!isGapChar ·.raw) = before.any (!isGapChar ·.raw) := by
        rw [List.any_cons, gap, Bool.not_true, Bool.false_or]
      exact ih ⟨hskip.trans htext, Or.inr ⟨reaches, hskip.trans text⟩⟩

/-! ## 4. Settled cells, cut and indented -/

theorem Settled.of_append : ∀ {before p s : List Cell}, Settled before (p ++ s) →
    Settled (p.reverse ++ before) s
  | _, [], _, h => h
  | before, c :: p, s, ⟨_, _, h⟩ => by
    rw [List.reverse_cons, List.append_assoc]
    exact h.of_append

theorem Settled.congr : ∀ {before before' cs : List Cell}, Settled before cs →
    before.any (!isGapChar ·.raw) = before'.any (!isGapChar ·.raw) → Facing before before' →
    Settled before' cs
  | _, _, [], _, _, _ => trivial
  | before, before', c :: cs, ⟨hl, he, h⟩, htext, hfacing => by
    refine ⟨?_, ?_, Settled.congr h ?_ (hfacing.cons c)⟩
    · rw [← lacksSpace_congr hfacing rfl, hl]
    · rw [← he, isErased, isErased, htext]
    · rw [List.any_cons, List.any_cons, htext]

theorem reachesTerminator_append {cs s : List Cell} (h : reachesTerminator cs = true) :
    reachesTerminator (cs ++ s) = true := by
  induction cs with
  | nil => exact absurd h (by decide)
  | cons c cs ih =>
    simp only [List.cons_append, reachesTerminator, Bool.or_eq_true, Bool.and_eq_true] at h ⊢
    exact h.imp_right fun h => ⟨h.1, ih h.2⟩

theorem leadingWord_append {t s : Text} (h : Text.headIsWord s = false) :
    Text.leadingWord (t ++ s) = Text.leadingWord t := by
  induction t with
  | nil =>
    cases s with
    | nil => rfl
    | cons c s => exact leadingWord_nil_of_not_word (by simpa [Text.headIsWord] using h) s
  | cons c t ih =>
    rw [List.cons_append]
    cases hc : Text.isWord c with
    | false => rw [leadingWord_nil_of_not_word hc, leadingWord_nil_of_not_word hc]
    | true => rw [leadingWord_cons hc, leadingWord_cons hc, ih]

/-- Blanks at the end can be cut off. -/
theorem Settled.of_append_blank {s : List Cell} (hs : ∀ c ∈ s, Text.isBlank c.code = true) :
    ∀ {before cs : List Cell}, Settled before (cs ++ s) → Settled before cs
  | _, [], _ => trivial
  | before, c :: cs, ⟨hl, he, h⟩ => by
    have hnone : Text.headIsWord (s.map Cell.code) = false :=
      Text.headIsWord_of_blank (List.forall_mem_map.mpr hs)
    refine ⟨?_, ?_, Settled.of_append_blank hs h⟩
    · rw [← hl]
      refine (lacksSpace_congr (.refl before) ?_).symm
      have h := leadingWord_append (t := (c :: cs).map Cell.code) hnone
      rwa [← List.map_append] at h
    · refine Bool.eq_false_iff.mpr fun h => Bool.false_ne_true (he.symm.trans ?_)
      simp only [isErased, Bool.and_eq_true] at h ⊢
      exact ⟨⟨h.1.1, reachesTerminator_append h.1.2⟩, h.2⟩

theorem eq_gapCell_of_mem {n : Nat} {c : Cell} (h : c ∈ List.replicate n gapCell) :
    c = gapCell := List.eq_of_mem_replicate h

/-- No space is missing behind one that was put in. -/
theorem not_lacksSpace_gaps (n : Nat) (c : Cell) (cs : List Cell) :
    Cut.lacksSpace ⟨List.replicate n gapCell, c :: cs⟩ = false := by
  refine not_lacksSpace fun b bs e hm => ?_
  obtain rfl := eq_gapCell_of_mem (n := n) (c := b) (e ▸ List.mem_cons_self)
  exact absurd (hm.raw_before gapCell_sound) (by decide)

/-- Behind blanks alone, it does not matter which they are. -/
theorem Settled.behind_gaps {before cs : List Cell} (n : Nat)
    (hb : ∀ c ∈ before, Text.isBlank c.code = true)
    (hhead : ∀ c ∈ cs.head?, Text.isBlank c.raw = false) (h : Settled before cs) :
    Settled (List.replicate n gapCell) cs := by
  cases cs with
  | nil => trivial
  | cons c cs =>
    have hraw : Text.isBlank c.raw = false := hhead c rfl
    have hgap : isGapChar c.raw = false := by
      refine Bool.eq_false_iff.mpr fun hg => ?_
      exact Bool.false_ne_true (hraw.symm.trans (isBlank_of_isGapChar hg))
    have hb' : ∀ c ∈ List.replicate n gapCell, Text.isBlank c.code = true := fun c hc => by
      rw [eq_gapCell_of_mem hc]; decide
    have hword {before : List Cell} (hb : ∀ c ∈ before, Text.isBlank c.code = true) :
        Text.leadingWord (before.map Cell.code) = [] :=
      leadingWord_append (t := []) (Text.headIsWord_of_blank (List.forall_mem_map.mpr hb))
    have hpoint {before : List Cell} (hb : ∀ c ∈ before, Text.isBlank c.code = true) :
        (beyondWord (before.map Cell.code)).head? ≠ some '.' := by
      rw [beyondWord, hword hb, List.length_nil, List.drop_zero]
      intro h
      obtain ⟨x, hx, e⟩ := List.mem_map.mp (List.mem_of_mem_head? h)
      exact absurd (e ▸ hb x hx) (by decide)
    refine ⟨not_lacksSpace_gaps n c cs, ?_, h.2.2.congr ?_ ?_⟩
    · rw [isErased, hgap, Bool.false_and, Bool.false_and]
    · simp only [List.any_cons, hgap, Bool.not_false, Bool.true_or]
    · cases hw : Text.isWord c.code with
      | false => exact .of_not_word hw before _
      | true =>
        refine ⟨rfl, ?_, ?_⟩
        · rw [List.map_cons, List.map_cons, leadingWord_cons hw, leadingWord_cons hw, hword hb,
            hword hb']
        · rw [List.map_cons, List.map_cons, beyondWord_word hw, beyondWord_word hw]
          simp only [hpoint hb, hpoint hb']

/-- Spaces at the start of a line stay. -/
theorem settled_gaps_append {cs : List Cell} : ∀ (n k : Nat),
    Settled (List.replicate (n + k) gapCell) cs →
    Settled (List.replicate k gapCell) (List.replicate n gapCell ++ cs)
  | 0, k, h => by rwa [Nat.zero_add] at h
  | n + 1, k, h => by
    have htext : (List.replicate k gapCell).any (!isGapChar ·.raw) = false :=
      List.any_eq_false.mpr fun c hc => by rw [eq_gapCell_of_mem hc]; decide
    rw [Nat.add_right_comm] at h
    refine ⟨not_lacksSpace_gaps k gapCell _, ?_, settled_gaps_append n (k + 1) h⟩
    rw [isErased, htext, Bool.and_false]

/-- **A settled line that is cut at its ends and indented is settled.**  Blanks at the start of a
line are never taken out, and in front of its first character no space is missing. -/
theorem settled_indented {p b q : List Cell} (n : Nat) (h : Settled [] (p ++ (b ++ q)))
    (hp : ∀ c ∈ p, Text.isBlank c.code = true) (hq : ∀ c ∈ q, Text.isBlank c.code = true)
    (hhead : ∀ c ∈ b.head?, Text.isBlank c.raw = false) :
    Settled [] (List.replicate n gapCell ++ b) := by
  have hb : Settled p.reverse b := by
    have h := h.of_append
    rw [List.append_nil] at h
    exact h.of_append_blank hq
  refine settled_gaps_append n 0 (hb.behind_gaps _ (fun c hc => ?_) hhead)
  exact hp c (List.mem_reverse.mp hc)

end Spacing
end HypnoScript
