/-
# Where spaces go, cell by cell

`spaceFrom` writes a line; `spaced` keeps the cells it writes, so that one can ask what a second
look at the written line finds (`spaceFrom_eq_map_raw`).

What a cut needs to lack a space is said once, in `Missing`: nine cases, each about the two cells at
the cut.  All that the other modules use about single cuts follows from `missing_of_lacksSpace`:

* no space is put in at the start, next to a blank, inside a word or in front of a terminator;
* one of the two cells is code, and no quotation mark;
* of the two characters of one operator, none is parted from the other.

Blanks are taken out only between some character and a terminator (`spaced_reaches`).
-/
import HypnoScript.Proofs.Masking.Lines
import HypnoScript.Spacing

namespace HypnoScript
namespace Spacing

/-! ## 1. The cells that are written -/

/-- The cell of a space that is put in. -/
def gapCell : Cell := ⟨' ', ' ', ⟨false, false⟩⟩

/-- The rest of a line, spaced, as cells. -/
def spaced (before : List Cell) : List Cell → List Cell
  | [] => []
  | c :: cs =>
    (if Cut.lacksSpace ⟨before, c :: cs⟩ then [gapCell] else []) ++
      (if isErased before c cs then [] else [c]) ++ spaced (c :: before) cs

theorem spaceFrom_eq_map_raw : ∀ (before cs : List Cell),
    spaceFrom before cs = (spaced before cs).map Cell.raw
  | _, [] => rfl
  | before, c :: cs => by
    rw [spaceFrom, spaced, spaceFrom_eq_map_raw (c :: before) cs]
    split <;> split <;> simp [gapCell]

/-! ## 2. Cells of a line and its masked copy -/

/-- The characters of the operators that are set off by spaces. -/
def operatorChars : List Char := ['=', '!', '>', '<', '&', '|', '?', '+', '-', '*', '/', '%']

/-- A cell as a line and its masked copy make them: the code is the raw character or hides it, and
only characters of operators are marked. -/
structure Cell.Sound (c : Cell) : Prop where
  hides : Mask.Hides c.raw c.code
  marked : c.mark.opens = true ∨ c.mark.closes = true → c.code ∈ operatorChars

theorem gapCell_sound : gapCell.Sound := ⟨Or.inl rfl, by simp [gapCell]⟩

theorem Cell.Sound.code_eq {c : Cell} (h : c.Sound) : c.code = c.raw ∨ c.code = ' ' :=
  h.hides.imp_right And.left

/-- Code that is no blank is the raw character. -/
theorem Cell.Sound.code_eq_raw {c : Cell} (h : c.Sound) (hb : Text.isBlank c.code = false) :
    c.code = c.raw :=
  h.code_eq.resolve_right fun e => absurd (e ▸ hb) (by decide)

theorem Cell.Sound.raw_not_blank {c : Cell} (h : c.Sound) (hb : Text.isBlank c.code = false) :
    Text.isBlank c.raw = false := h.code_eq_raw hb ▸ hb

theorem Cell.Sound.code_blank {c : Cell} (h : c.Sound) (hb : Text.isBlank c.raw = true) :
    Text.isBlank c.code = true := by
  rcases h.code_eq with e | e <;> rw [e]
  · exact hb
  · decide

theorem operatorChars_plain : ∀ x ∈ operatorChars, Text.isBlank x = false ∧
    Text.isWord x = false ∧ x ∉ ['"', ';', '{', '}', '(', '[', ',', ':', ')', ']', '.'] :=
  List.forall_iff_forall_mem.mp (by decide)

/-! ## 3. Why a space is missing -/

/-- The ways in which a space can be missing between two cells. -/
inductive Missing (b c : Cell) : Prop
  | beforeOperator (opens : c.mark.opens = true) (loose : Text.isBlank b.raw = false)
  | afterOperator (closes : b.mark.closes = true) (loose : Text.isBlank c.raw = false)
      (terminator : c.raw ≠ ';')
  | beforeWordOperator (before : Text.isWord b.code = false) (point : b.code ≠ '.')
      (word : Text.isWord c.code = true) (loose : Text.isBlank b.raw = false)
  | afterWordOperator (word : Text.isWord b.code = true) (after : Text.isWord c.code = false)
      (loose : Text.isBlank c.raw = false) (terminator : c.raw ≠ ';')
  | afterComma (comma : b.code = ',') (loose : Text.isBlank c.raw = false)
      (terminator : c.raw ≠ ';')
  | beforeGroup (word : Text.isWord b.code = true) (group : c.code ∈ ['(', '{', '[', '"'])
  | beforeType (colon : b.code = ':') (word : Text.isWord c.code = true)
  | beforeBlock (operand : Text.isWord b.code = true ∨ b.code ∈ [')', ']', '"'])
      (block : c.code = '{')
  | afterBlock (block : b.code = '}') (word : Text.isWord c.code = true)

theorem contains_ne_nil {words : List String} (hw : words.contains "" = false) {w : Text}
    (h : words.contains (String.ofList w) = true) : w ≠ [] := by
  rintro rfl
  exact absurd (hw.symm.trans h) (by decide)

theorem isWord_of_leadingWord_ne_nil {t : Text} (h : Text.leadingWord t ≠ []) :
    ∃ c cs, t = c :: cs ∧ Text.isWord c = true := by
  cases t with
  | nil => exact absurd rfl h
  | cons c cs =>
    refine ⟨c, cs, rfl, ?_⟩
    by_contra hc
    exact h (by simp [Text.leadingWord, hc])

/-- A word that ends at a cut ends with the cell in front of it. -/
theorem isWord_of_endsWordOf {b : Cell} {bs cs : List Cell} {words : List String}
    (hw : words.contains "" = false) (h : Cut.endsWordOf ⟨b :: bs, cs⟩ words = true) :
    Text.isWord b.code = true := by
  simp only [Cut.endsWordOf, Bool.and_eq_true] at h
  have hne := contains_ne_nil hw h.1
  rw [wordBefore, Ne, List.reverse_eq_nil_iff] at hne
  obtain ⟨x, xs, hx, hword⟩ := isWord_of_leadingWord_ne_nil hne
  simp only [Cut.codeBefore, List.map_cons, List.cons.injEq] at hx
  rwa [hx.1]

/-- Nothing ends in front of a line. -/
theorem not_endsWordOf_nil {cs : List Cell} {words : List String}
    (hw : words.contains "" = false) : Cut.endsWordOf ⟨[], cs⟩ words = false := by
  refine Bool.eq_false_iff.mpr fun h => ?_
  simp only [Cut.endsWordOf, Bool.and_eq_true] at h
  exact contains_ne_nil hw h.1 (by simp [Cut.codeBefore, wordBefore, Text.leadingWord])

theorem no_empty_words : Cut.wordOperators.contains "" = false ∧
    Cut.groupKeywords.contains "" = false ∧ typeKeywords.contains "" = false := by decide

/-- A space is missing only behind some cell. -/
theorem not_lacksSpace_nil (cs : List Cell) : Cut.lacksSpace ⟨[], cs⟩ = false := by
  simp [Cut.lacksSpace, Cut.atOperator, Cut.atWordOperator, Cut.afterComma, Cut.beforeGroup,
    Cut.beforeType, Cut.beforeBlock, Cut.afterBlock, Cut.looseBefore, Cut.follows,
    Cut.startsWordOf, Cut.codeBefore, endsOperand, not_endsWordOf_nil no_empty_words.1,
    not_endsWordOf_nil no_empty_words.2.1]

/-- **Every cut that lacks a space lacks it for one of the reasons.**  The rules look at words as
well; each time the word can be left out, as the cell next to the cut is one of its characters. -/
theorem missing_of_lacksSpace {b c : Cell} {bs cs : List Cell}
    (h : Cut.lacksSpace ⟨b :: bs, c :: cs⟩ = true) : Missing b c := by
  have hword {words : List String} (hw : words.contains "" = false)
      (h : words.contains (String.ofList (Text.leadingWord (c.code :: cs.map Cell.code))) = true) :
      Text.isWord c.code = true := by
    obtain ⟨x, xs, hx, hx'⟩ := isWord_of_leadingWord_ne_nil (contains_ne_nil hw h)
    rw [List.cons.injEq] at hx
    rwa [hx.1]
  simp only [Cut.lacksSpace, Bool.or_eq_true] at h
  rcases h with (((((h | h) | h) | h) | h) | h) | h
  · simp only [Cut.atOperator, Cut.looseBefore, Cut.looseAfter, Cut.follows, Cut.precedes,
      List.head?_cons, Option.any_some, Bool.or_eq_true, Bool.and_eq_true, Bool.not_eq_true',
      bne_iff_ne] at h
    rcases h with ⟨h1, h2⟩ | ⟨h1, h2⟩
    · exact .beforeOperator h1 h2.1.1
    · exact .afterOperator h1 h2.1.1.1.1 h2.1.1.1.2
  · simp only [Cut.atWordOperator, Cut.startsWordOf, Cut.looseBefore, Cut.looseAfter, Cut.follows,
      Cut.precedes, List.head?_cons, Option.any_some, Bool.or_eq_true, Bool.and_eq_true,
      Bool.not_eq_true', bne_iff_ne] at h
    rcases h with ⟨⟨h1, h2⟩, h3⟩ | ⟨⟨h1, h2⟩, h3⟩
    · exact .beforeWordOperator h1.1 h1.2 (hword no_empty_words.1 h2) h3.1.1
    · refine .afterWordOperator (isWord_of_endsWordOf no_empty_words.1 h2) ?_ h3.1.1.1.1 h3.1.1.1.2
      simpa [Cut.codeAfter, Text.headIsWord] using h1
  · simp only [Cut.afterComma, Cut.looseAfter, Cut.follows, Cut.precedes, List.head?_cons,
      Option.any_some, Bool.and_eq_true, Bool.not_eq_true', bne_iff_ne, beq_iff_eq] at h
    exact .afterComma h.1 h.2.1.1.1.1 h.2.1.1.1.2
  · simp only [Cut.beforeGroup, Cut.precedes, List.head?_cons, Option.any_some, Bool.and_eq_true,
      Bool.or_eq_true, beq_iff_eq] at h
    exact .beforeGroup (isWord_of_endsWordOf no_empty_words.2.1 h.2) (by simpa [or_assoc] using h.1)
  · simp only [Cut.beforeType, Cut.follows, List.head?_cons, Option.any_some, Bool.and_eq_true,
      beq_iff_eq] at h
    exact .beforeType h.1 (hword no_empty_words.2.2 h.2)
  · simp only [Cut.beforeBlock, Cut.precedes, Cut.codeBefore, endsOperand, List.head?_cons,
      List.map_cons, Option.any_some, Bool.and_eq_true, Bool.or_eq_true, beq_iff_eq] at h
    exact .beforeBlock (by simpa [or_assoc] using h.2) h.1
  · simp only [Cut.afterBlock, Cut.follows, Cut.codeAfter, Text.headIsWord, List.head?_cons,
      List.map_cons, Option.any_some, Bool.and_eq_true, beq_iff_eq] at h
    exact .afterBlock h.1 h.2

/-! ## 4. What is known at a cut that lacks a space -/

/-- Code that is no blank and no quotation mark: what only code can show. -/
def Solid (x : Char) : Prop := Text.isBlank x = false ∧ x ≠ '"'

theorem solid_of_isWord {x : Char} (h : Text.isWord x = true) : Solid x :=
  ⟨Text.isBlank_eq_false_of_isWord h, by rintro rfl; exact absurd h (by decide)⟩

theorem solid_of_operatorChar {x : Char} (h : x ∈ operatorChars) : Solid x := by
  have hp := operatorChars_plain x h
  simp only [List.mem_cons, not_or] at hp
  exact ⟨hp.1, hp.2.2.1⟩

namespace Missing

variable {b c : Cell}

theorem solid (hb : b.Sound) (hc : c.Sound) (h : Missing b c) : Solid b.code ∨ Solid c.code := by
  cases h with
  | beforeOperator opens => exact Or.inr (solid_of_operatorChar (hc.marked (Or.inl opens)))
  | afterOperator closes => exact Or.inl (solid_of_operatorChar (hb.marked (Or.inr closes)))
  | beforeWordOperator _ _ word | beforeType _ word | afterBlock _ word =>
    exact Or.inr (solid_of_isWord word)
  | afterWordOperator word | beforeGroup word => exact Or.inl (solid_of_isWord word)
  | afterComma comma => exact Or.inl (by rw [comma]; exact ⟨by decide, by decide⟩)
  | beforeBlock _ block => exact Or.inr (by rw [block]; exact ⟨by decide, by decide⟩)

theorem code_ne_terminator (hc : c.Sound) (h : Missing b c) : c.code ≠ ';' := by
  intro e
  have hraw : c.raw = ';' := (hc.code_eq_raw (e ▸ by decide)).symm.trans e
  cases h with
  | beforeOperator opens => exact absurd (e ▸ hc.marked (Or.inl opens)) (by decide)
  | afterOperator _ _ terminator | afterWordOperator _ _ _ terminator
  | afterComma _ _ terminator => exact terminator hraw
  | beforeWordOperator _ _ word | beforeType _ word | afterBlock _ word =>
    exact absurd (e ▸ word) (by decide)
  | beforeGroup _ group => exact absurd (e ▸ group) (by decide)
  | beforeBlock _ block => exact absurd (e ▸ block) (by decide)

theorem not_between_words (hb : b.Sound) (hc : c.Sound) (h : Missing b c)
    (hbw : Text.isWord b.code = true) : Text.isWord c.code = false := by
  cases h with
  | beforeOperator opens => exact (operatorChars_plain _ (hc.marked (Or.inl opens))).2.1
  | afterOperator closes =>
    have h := (operatorChars_plain _ (hb.marked (Or.inr closes))).2.1
    exact absurd (h.symm.trans hbw) Bool.false_ne_true
  | beforeWordOperator before => exact absurd (before.symm.trans hbw) Bool.false_ne_true
  | afterWordOperator _ after => exact after
  | afterComma comma => exact absurd (comma ▸ hbw) (by decide)
  | beforeGroup _ group =>
    simp only [List.mem_cons, List.not_mem_nil, or_false] at group
    rcases group with e | e | e | e <;> rw [e] <;> decide
  | beforeType colon => exact absurd (colon ▸ hbw) (by decide)
  | beforeBlock _ block => rw [block]; decide
  | afterBlock block => exact absurd (block ▸ hbw) (by decide)

theorem raw_before (hb : b.Sound) (h : Missing b c) : Text.isBlank b.raw = false := by
  cases h with
  | beforeOperator _ loose | beforeWordOperator _ _ _ loose => exact loose
  | afterOperator closes =>
    exact hb.raw_not_blank (solid_of_operatorChar (hb.marked (Or.inr closes))).1
  | afterWordOperator word | beforeGroup word =>
    exact hb.raw_not_blank (solid_of_isWord word).1
  | afterComma e | beforeType e | afterBlock e =>
    exact hb.raw_not_blank (by rw [e]; decide)
  | beforeBlock operand =>
    refine hb.raw_not_blank ?_
    rcases operand with word | e
    · exact (solid_of_isWord word).1
    · simp only [List.mem_cons, List.not_mem_nil, or_false] at e
      rcases e with e | e | e <;> rw [e] <;> decide

theorem raw_after (hc : c.Sound) (h : Missing b c) : Text.isBlank c.raw = false := by
  cases h with
  | beforeOperator opens =>
    exact hc.raw_not_blank (solid_of_operatorChar (hc.marked (Or.inl opens))).1
  | afterOperator _ loose | afterWordOperator _ _ loose | afterComma _ loose => exact loose
  | beforeWordOperator _ _ word | beforeType _ word | afterBlock _ word =>
    exact hc.raw_not_blank (solid_of_isWord word).1
  | beforeGroup _ group =>
    refine hc.raw_not_blank ?_
    simp only [List.mem_cons, List.not_mem_nil, or_false] at group
    rcases group with e | e | e | e <;> rw [e] <;> decide
  | beforeBlock _ block => exact hc.raw_not_blank (by rw [block]; decide)

end Missing

/-! ## 5. What is taken out -/

theorem isBlank_of_isGapChar {x : Char} (h : isGapChar x = true) : Text.isBlank x = true := by
  simp only [isGapChar, Bool.or_eq_true, beq_iff_eq] at h
  rcases h with rfl | rfl <;> decide

/-- Cells that all come from a line and its masked copy. -/
def AllSound (cs : List Cell) : Prop := ∀ c ∈ cs, c.Sound

theorem AllSound.head {c : Cell} {cs : List Cell} (h : AllSound (c :: cs)) : c.Sound :=
  h c List.mem_cons_self

theorem AllSound.tail {c : Cell} {cs : List Cell} (h : AllSound (c :: cs)) : AllSound cs :=
  fun x hx => h x (List.mem_cons_of_mem _ hx)

theorem AllSound.cons {c : Cell} {cs : List Cell} (hc : c.Sound) (h : AllSound cs) :
    AllSound (c :: cs) := by
  intro x hx
  rcases List.mem_cons.mp hx with rfl | hx
  · exact hc
  · exact h x hx

theorem not_lacksSpace {before : List Cell} {c : Cell} {cs : List Cell}
    (h : ∀ b bs, before = b :: bs → ¬ Missing b c) :
    Cut.lacksSpace ⟨before, c :: cs⟩ = false := by
  cases before with
  | nil => exact not_lacksSpace_nil _
  | cons b bs =>
    exact Bool.eq_false_iff.mpr fun hl => h b bs rfl (missing_of_lacksSpace hl)

/-- **Behind blanks that are taken out comes the terminator**, with nothing in front of it: the
other blanks up to it are taken out for the same reason, and no space is put in next to a blank or
in front of a terminator. -/
theorem spaced_reaches {cs : List Cell} : ∀ (before : List Cell), AllSound cs →
    before.any (!isGapChar ·.raw) = true → reachesTerminator cs = true →
    ∃ t ts, spaced before cs = t :: ts ∧ t ∈ cs ∧ t.code = ';' := by
  induction cs with
  | nil => simp [reachesTerminator]
  | cons c cs ih =>
    intro before hs hany hr
    have hc := hs.head
    simp only [reachesTerminator, Bool.or_eq_true, Bool.and_eq_true, beq_iff_eq] at hr
    by_cases he : c.code = ';'
    · have hraw : c.raw = ';' := (hc.code_eq_raw (he ▸ by decide)).symm.trans he
      have hl : Cut.lacksSpace ⟨before, c :: cs⟩ = false :=
        not_lacksSpace fun b bs _ hm => hm.code_ne_terminator hc he
      refine ⟨c, spaced (c :: before) cs, ?_, List.mem_cons_self, he⟩
      simp [spaced, hl, isErased, isGapChar, hraw]
    · obtain ⟨hg, hr⟩ := hr.resolve_left he
      have hl : Cut.lacksSpace ⟨before, c :: cs⟩ = false :=
        not_lacksSpace fun b bs _ hm => by
          have := hm.raw_after hc
          rw [isBlank_of_isGapChar hg] at this
          exact absurd this (by decide)
      obtain ⟨t, ts, hts, hmem, ht⟩ := ih (c :: before) hs.tail (by simp [hany]) hr
      refine ⟨t, ts, ?_, List.mem_cons_of_mem _ hmem, ht⟩
      simp [spaced, hl, isErased, hg, hr, hany, hts]

/-! ## 6. One cell at a time -/

/-- What is written for a cell: the cell is kept, it gets a space in front of it, or it is a blank
that is taken out in front of a terminator. -/
inductive Step (before : List Cell) (c : Cell) (cs : List Cell) : Prop
  | keep (lacks : Cut.lacksSpace ⟨before, c :: cs⟩ = false) (erased : isErased before c cs = false)
      (eq : spaced before (c :: cs) = c :: spaced (c :: before) cs)
  | part (b : Cell) (bs : List Cell) (front : before = b :: bs) (missing : Missing b c)
      (eq : spaced before (c :: cs) = gapCell :: c :: spaced (c :: before) cs)
  | erase (gap : isGapChar c.raw = true) (reaches : reachesTerminator cs = true)
      (text : before.any (!isGapChar ·.raw) = true) (t : Cell) (ts : List Cell)
      (sound : t.Sound) (terminator : t.code = ';') (next : spaced (c :: before) cs = t :: ts)
      (eq : spaced before (c :: cs) = spaced (c :: before) cs)

theorem step_spaced (before : List Cell) {c : Cell} {cs : List Cell} (hs : AllSound (c :: cs)) :
    Step before c cs := by
  by_cases hl : Cut.lacksSpace ⟨before, c :: cs⟩ = true
  · cases before with
    | nil => exact absurd ((not_lacksSpace_nil _).symm.trans hl) Bool.false_ne_true
    | cons b bs =>
      have hm := missing_of_lacksSpace hl
      have he : isErased (b :: bs) c cs = false := by
        refine Bool.eq_false_iff.mpr fun he => ?_
        simp only [isErased, Bool.and_eq_true] at he
        have := hm.raw_after hs.head
        rw [isBlank_of_isGapChar he.1.1] at this
        exact absurd this (by decide)
      exact .part b bs rfl hm (by simp [spaced, hl, he])
  · have hl : Cut.lacksSpace ⟨before, c :: cs⟩ = false := Bool.eq_false_iff.mpr hl
    by_cases he : isErased before c cs = true
    · have heq : spaced before (c :: cs) = spaced (c :: before) cs := by simp [spaced, hl, he]
      simp only [isErased, Bool.and_eq_true] at he
      obtain ⟨t, ts, hts, hmem, ht⟩ :=
        spaced_reaches (c :: before) hs.tail (by simp [he.2]) he.1.2
      exact .erase he.1.1 he.1.2 he.2 t ts (hs.tail t hmem) ht hts heq
    · have he : isErased before c cs = false := Bool.eq_false_iff.mpr he
      exact .keep hl he (by simp [spaced, hl, he])

/-- The first cell that is written is the first cell, a space that is put in, or a terminator in
front of which blanks were taken out. -/
theorem head_spaced (before : List Cell) {cs : List Cell} (hs : AllSound cs) :
    (spaced before cs).head? = cs.head? ∨ (spaced before cs).head? = some gapCell ∨
      ∃ t c, (spaced before cs).head? = some t ∧ t.Sound ∧ t.code = ';' ∧
        cs.head? = some c ∧ isGapChar c.raw = true := by
  cases cs with
  | nil => exact Or.inl rfl
  | cons c cs =>
    cases step_spaced before hs with
    | keep _ _ eq => exact Or.inl (by rw [eq]; rfl)
    | part b bs _ _ eq => exact Or.inr (Or.inl (by rw [eq]; rfl))
    | erase gap _ _ t ts sound terminator next eq =>
      exact Or.inr (Or.inr ⟨t, c, by rw [eq, next]; rfl, sound, terminator, rfl, gap⟩)

end Spacing
end HypnoScript
