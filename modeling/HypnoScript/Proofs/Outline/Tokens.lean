/-
# What the outline reads off the tokens

A heading is one word, or two words, at the start of a line, and which block it heads can be read
off the tokens of the line (`headingOf?_eq`).  Where the block ends is a matter of braces and
newlines alone (`linesBelow_filter`), and in front of the name, where the search for braces starts,
there are none.  So two documents with the same tokens in the same lines of code have the same
blocks but for the columns (`Block.rough`), and outlines alike (`Symbol.Alike`).

The words that declare a block have to be words for that, and they are.
-/
import HypnoScript.Outline
import HypnoScript.Proofs.Masking.Twice
import HypnoScript.Proofs.Text.Places

namespace HypnoScript

open Text (IsRun headIsWord isBlank isWord leadingWord tokens trimLeft)

/-! ## 1. Headings -/

namespace Outline

/-- The name that a heading in one form gives, read off the tokens of its line. -/
def headingName? (form : Form) : List Token → Option Text
  | .word w :: ts =>
    if w ≠ form.word then none
    else if form.named then
      if (Text.firstWord ts).head?.any Text.startsName then some (Text.firstWord ts) else none
    else some w
  | _ => none

variable {form : Form} {code : Text}

theorem head?_leadingWord (t : Text) :
    (leadingWord t).head?.any Text.startsName = t.head?.any Text.startsName := by
  cases t with
  | nil => rfl
  | cons c t => cases hc : isWord c <;> simp [leadingWord, Text.startsName, hc]

theorem trimLeft_of_headIsWord {t : Text} (h : headIsWord t = true) : trimLeft t = t := by
  refine Text.trimLeft_of_head fun c hc => Text.isBlank_eq_false_of_isWord ?_
  rwa [headIsWord, Option.mem_def.mp hc] at h

/-- Behind a word, a name follows after blanks just if it is the first token. -/
theorem name_behind {t : Text} (ht : headIsWord t = false) :
    (if (trimLeft t).length < t.length && (trimLeft t).head?.any Text.startsName then
        some (leadingWord (trimLeft t)) else none) =
      if (Text.firstWord (tokens t)).head?.any Text.startsName then
        some (Text.firstWord (tokens t)) else none := by
  rw [← Text.leadingWord_trimLeft, head?_leadingWord]
  cases hname : (trimLeft t).head?.any Text.startsName with
  | false => simp
  | true =>
    have hne : (trimLeft t).length ≠ t.length := by
      intro h
      have htrim : trimLeft t = t := (List.dropWhile_suffix _).eq_of_length h
      rw [htrim, Text.startsName_of_not_word ht] at hname
      exact Bool.false_ne_true hname
    have hlt : (trimLeft t).length < t.length :=
      Nat.lt_of_le_of_ne (List.dropWhile_suffix _).length_le hne
    simp [hlt]

/-- The name of a heading, without its column. -/
theorem name_headingOf? (form : Form) (code : Text) :
    (headingOf? code form).map Heading.name =
      (Text.afterStart? form.word (trimLeft code)).bind fun rest =>
        if form.named then
          if (trimLeft rest).length < rest.length && (trimLeft rest).head?.any Text.startsName then
            some (leadingWord (trimLeft rest)) else none
        else if headIsWord rest then none else some form.word := by
  rw [headingOf?, Option.map_bind]
  congr 1
  funext rest
  simp only [Function.comp_apply]
  repeat' split
  all_goals rfl

/-- **The name of a heading can be read off the tokens of its line.**  A heading is the first word
of the line, and its name is that word or the one behind it.  Only blanks can stand between the two,
and those are not seen in the tokens; but that there are some is, as otherwise the two words would
be one. -/
theorem headingOf?_eq (hw : IsRun form.word) (code : Text) :
    (headingOf? code form).map Heading.name = headingName? form (tokens code) := by
  rw [name_headingOf?]
  induction code using Text.token_induction with
  | nil => rw [trimLeft, List.dropWhile_nil, Text.afterStart?_of_not_word hw rfl]; rfl
  | blank c t hb ih =>
    have htrim : trimLeft (c :: t) = trimLeft t := List.dropWhile_cons_of_pos hb
    rw [Text.tokens_blank_cons hb, htrim, ih]
  | sign c t hc hb ih =>
    have htrim : trimLeft (c :: t) = c :: t := List.dropWhile_cons_of_neg (by simp [hb])
    have hnone := Text.afterStart?_of_not_word hw (t := c :: t) hc
    rw [htrim, hnone, Text.tokens_sign_cons hc hb]
    rfl
  | word u t hu ht ih =>
    have htrim : trimLeft (u ++ t) = u ++ t := by
      obtain ⟨c, u, rfl⟩ := List.exists_cons_of_ne_nil hu.1
      exact trimLeft_of_headIsWord (hu.2 c List.mem_cons_self)
    have hstarts := Text.starts_iff hw.2 (u ++ t)
    rw [Text.leadingWord_append_run hu.2 ht] at hstarts
    rw [htrim, Text.tokens_word_append hu ht, headingName?]
    by_cases he : u = form.word
    · have hrest : Text.afterStart? form.word (u ++ t) = some t :=
        Text.afterStart?_eq_some_iff.mpr (by rw [he])
      rw [hrest, Option.bind_some, name_behind ht, ht, if_neg Bool.false_ne_true,
        if_neg (not_not.mpr he), he]
    · -- a longer word, behind the start of which the word goes on
      rw [if_pos he]
      cases hrest : Text.afterStart? form.word (u ++ t) with
      | none => rfl
      | some rest =>
        rw [hrest, Option.any_some, Bool.not_eq_true'] at hstarts
        have hword : headIsWord rest = true :=
          Bool.not_eq_false _ ▸ hstarts.not.mpr he
        rw [Option.bind_some, trimLeft_of_headIsWord hword, hword]
        simp

/-- A heading is one in its form, and in front of its name there are only word characters and
blanks. -/
theorem headingOf?_spec (hw : IsRun form.word) {h : Heading}
    (hh : headingOf? code form = some h) :
    h.form = form ∧ h.column ≤ code.length ∧
      ∀ c ∈ code.take h.column, isWord c = true ∨ isBlank c = true := by
  obtain ⟨rest, hstart, hrest⟩ := Option.bind_eq_some_iff.mp hh
  have hcode : code = code.takeWhile isBlank ++ (form.word ++ rest) := by
    rw [← Text.afterStart?_eq_some_iff.mp hstart]
    exact List.takeWhile_append_dropWhile.symm
  have hblank (t : Text) : ∀ c ∈ t.takeWhile isBlank, isWord c = true ∨ isBlank c = true :=
    fun c hc => Or.inr (List.mem_takeWhile_imp hc)
  have hfront {p s : Text} (hps : code = p ++ s)
      (hp : ∀ c ∈ p, isWord c = true ∨ isBlank c = true) :
      code.length - s.length ≤ code.length ∧
        ∀ c ∈ code.take (code.length - s.length), isWord c = true ∨ isBlank c = true := by
    refine ⟨Nat.sub_le _ _, ?_⟩
    rw [hps, List.length_append, Nat.add_sub_cancel, List.take_left]
    exact hp
  split at hrest
  · dsimp only at hrest
    split at hrest
    · rw [← Option.some.inj hrest]
      refine ⟨rfl, hfront
        (p := code.takeWhile isBlank ++ (form.word ++ rest.takeWhile isBlank)) ?_ ?_⟩
      · rw [List.append_assoc, List.append_assoc, trimLeft, List.takeWhile_append_dropWhile]
        exact hcode
      · intro c hc
        rcases List.mem_append.mp hc with hc | hc
        · exact hblank _ c hc
        · rcases List.mem_append.mp hc with hc | hc
          · exact Or.inl (hw.2 c hc)
          · exact hblank _ c hc
    · exact absurd hrest (by simp)
  · split at hrest
    · exact absurd hrest (by simp)
    · rw [← Option.some.inj hrest]
      exact ⟨rfl, hfront (s := trimLeft code) List.takeWhile_append_dropWhile.symm (hblank _)⟩

/-- The name and the form of the heading that a line is, read off its tokens. -/
def headings (forms : List Form) (ts : List Token) : Option (Text × Form) :=
  forms.findSome? fun form => (headingName? form ts).map (·, form)

/-- The words of some forms are words. -/
def AreWords (forms : List Form) : Prop := ∀ form ∈ forms, IsRun form.word

/-- **The heading of a line, but for its column, can be read off its tokens.** -/
theorem heading?_eq {forms : List Form} (hw : AreWords forms) (code : Text) :
    (heading? forms code).map (fun h => (h.name, h.form)) = headings forms (tokens code) := by
  rw [heading?, headings]
  induction forms with
  | nil => rfl
  | cons form forms ih =>
    obtain ⟨hform, hforms⟩ := List.forall_mem_cons.mp hw
    rw [List.findSome?_cons, List.findSome?_cons, ← headingOf?_eq hform]
    cases hh : headingOf? code form with
    | none => exact ih hforms
    | some h => exact congrArg (fun f => some (h.name, f)) (headingOf?_spec hform hh).1

theorem front_of_heading? {forms : List Form} (hw : AreWords forms) {h : Heading}
    (hh : heading? forms code = some h) :
    h.column ≤ code.length ∧ ∀ c ∈ code.take h.column, isWord c = true ∨ isBlank c = true := by
  obtain ⟨form, hform, hh⟩ := List.exists_of_findSome?_eq_some hh
  exact (headingOf?_spec (hw form hform) hh).2

/-! ## 2. Where a block ends -/

/-- The characters that are counted to find the end of a block. -/
def isMark (c : Char) : Bool := c == '{' || c == '}' || c == '\n'

theorem linesToClose_filter (t : Text) : ∀ depth : Nat,
    linesToClose depth (t.filter isMark) = linesToClose depth t := by
  induction t with
  | nil => exact fun _ => rfl
  | cons c t ih =>
    intro depth
    cases hc : isMark c with
    | true => simp only [List.filter_cons_of_pos hc, linesToClose, ih]
    | false =>
      simp only [isMark, Bool.or_eq_false_iff, beq_eq_false_iff_ne] at hc
      have hc' : ¬ isMark c = true := by simp [isMark, hc]
      rw [List.filter_cons_of_neg hc', ih, linesToClose, if_neg hc.1.1, if_neg hc.1.2, if_neg hc.2]

/-- The first opening brace is found among the marks. -/
theorem cut_filter (t : Text) :
    (t.filter isMark).takeWhile (· != '{') = (t.takeWhile (· != '{')).filter isMark ∧
      (t.filter isMark).dropWhile (· != '{') = (t.dropWhile (· != '{')).filter isMark := by
  induction t with
  | nil => exact ⟨rfl, rfl⟩
  | cons c t ih =>
    by_cases hopen : c = '{'
    · subst hopen
      exact ⟨rfl, rfl⟩
    · have hc : (c != '{') = true := bne_iff_ne.mpr hopen
      rw [List.takeWhile_cons_of_pos (p := (· != '{')) hc,
        List.dropWhile_cons_of_pos (p := (· != '{')) hc]
      cases hmark : isMark c with
      | true =>
        rw [List.filter_cons_of_pos hmark, List.filter_cons_of_pos hmark,
          List.takeWhile_cons_of_pos (p := (· != '{')) hc,
          List.dropWhile_cons_of_pos (p := (· != '{')) hc, ih.1]
        exact ⟨rfl, ih.2⟩
      | false =>
        have hmark' : ¬ isMark c = true := Bool.eq_false_iff.mp hmark
        rw [List.filter_cons_of_neg hmark', List.filter_cons_of_neg hmark']
        exact ih

/-- **Where a block ends is a matter of braces and newlines alone.**  Other characters neither
change the depth of the search nor count as lines.  So spaces may come and go without moving the end
of a block to another line. -/
theorem linesBelow_filter (t : Text) : linesBelow (t.filter isMark) = linesBelow t := by
  have hcount : ((t.takeWhile (· != '{')).filter isMark).count '\n' =
      (t.takeWhile (· != '{')).count '\n' := List.count_filter (by decide)
  have hempty : ((t.dropWhile (· != '{')).filter isMark).isEmpty =
      (t.dropWhile (· != '{')).isEmpty := by
    have hhead := List.head?_dropWhile_not (· != '{') t
    cases hbody : t.dropWhile (· != '{') with
    | nil => rfl
    | cons c body =>
      rw [hbody] at hhead
      have hc : c = '{' := by simpa using hhead
      rw [hc, List.filter_cons_of_pos (by decide)]
      rfl
  simp only [linesBelow, (cut_filter t).1, (cut_filter t).2, hcount, hempty, linesToClose_filter]

/-- What stands in front of the first mark does not matter. -/
theorem linesBelow_drop {t : Text} {k : Nat} (h : ∀ c ∈ t.take k, isMark c = false) :
    linesBelow (t.drop k) = linesBelow t := by
  have hfront : (t.take k).filter isMark = [] :=
    List.filter_eq_nil_iff.mpr fun c hc => Bool.eq_false_iff.mp (h c hc)
  rw [← linesBelow_filter t, ← List.take_append_drop k t, List.filter_append, hfront,
    List.nil_append, linesBelow_filter, List.take_append_drop]

/-- The marks of a line are among its ink. -/
theorem filter_line {l : Text} (hn : '\n' ∉ l) :
    l.filter isMark = ((tokens l).flatMap Token.text).filter isMark := by
  rw [Text.flatMap_text_tokens, Text.ink, List.filter_filter]
  refine List.filter_congr fun c hc => ?_
  cases hmark : isMark c with
  | false => rfl
  | true =>
    simp only [isMark, Bool.or_eq_true, beq_iff_eq] at hmark
    rcases hmark with (rfl | rfl) | rfl
    · decide
    · decide
    · exact absurd hc hn

/-- Lines with the same tokens have the same marks. -/
theorem filter_joinLines_congr : ∀ {ls ls' : List Text}, (∀ l ∈ ls, '\n' ∉ l) →
    (∀ l ∈ ls', '\n' ∉ l) → ls.map tokens = ls'.map tokens →
    (Text.joinLines ls).filter isMark = (Text.joinLines ls').filter isMark
  | [], [], _, _, _ => rfl
  | l :: ls, l' :: ls', hn, hn', h => by
    obtain ⟨hl, hls⟩ := List.forall_mem_cons.mp hn
    obtain ⟨hl', hls'⟩ := List.forall_mem_cons.mp hn'
    obtain ⟨htokens, hrest⟩ := List.cons.inj h
    have hline : l.filter isMark = l'.filter isMark := by
      rw [filter_line hl, filter_line hl', htokens]
    by_cases hnil : ls = []
    · subst hnil
      obtain rfl : ls' = [] := List.map_eq_nil_iff.mp hrest.symm
      exact hline
    · have hnil' : ls' ≠ [] := by
        rintro rfl
        exact hnil (List.map_eq_nil_iff.mp hrest)
      rw [Text.joinLines_cons l hnil, Text.joinLines_cons l' hnil', List.filter_append,
        List.filter_append, hline, List.filter_cons_of_pos (by decide),
        List.filter_cons_of_pos (by decide), filter_joinLines_congr hls hls' hrest]

/-! ## 3. Blocks -/

/-- A block but for the column of its name. -/
def Block.rough (b : Block) : (Text × Form) × Nat × Nat :=
  ((b.heading.name, b.heading.form), b.line, b.linesBelow)

/-- **The block that a line declares**, but for the column of its name, is told by the tokens of the
line, and by the braces from the start of the line on.  The search starts at the name, but a heading
has no braces in front of its name. -/
theorem blockAt?_rough {forms : List Form} (hw : AreWords forms) (t : Text) (n : Nat) :
    (blockAt? (.ofText t) forms n).map Block.rough =
      ((Document.ofText t).codeLines[n]?).bind fun code =>
        (headings forms (tokens code)).map fun h =>
          (h, n, linesBelow (Text.joinLines ((Document.ofText t).codeLines.drop n))) := by
  rw [blockAt?]
  cases hcode : (Document.ofText t).codeLines[n]? with
  | none => rfl
  | some code =>
    rw [Option.bind_some, Option.bind_some, ← heading?_eq hw]
    cases hheading : heading? forms code with
    | none => rfl
    | some h =>
      obtain ⟨hcolumn, hfront⟩ := front_of_heading? hw hheading
      obtain ⟨hn, hget⟩ := List.getElem?_eq_some_iff.mp hcode
      have hline : '\n' ∉ code :=
        Text.no_newline_of_mem_lines (masked t) code (List.mem_of_getElem? hcode)
      have hmark : ∀ c ∈ code.take h.column, isMark c = false := by
        intro c hc
        have hne : c ≠ '\n' := fun e => hline (e ▸ List.mem_of_mem_take hc)
        refine Bool.eq_false_iff.mpr fun hmark => ?_
        simp only [isMark, Bool.or_eq_true, beq_iff_eq] at hmark
        rcases hmark with (rfl | rfl) | rfl
        · exact absurd (hfront _ hc) (by decide)
        · exact absurd (hfront _ hc) (by decide)
        · exact hne rfl
      have hstart : (Document.ofText t).code.drop ((Document.ofText t).lineStart n) =
          Text.joinLines ((Document.ofText t).codeLines.drop n) := by
        rw [← (Document.sameCode_masked t).lineStart]
        exact Document.drop_lineStart hn
      have hlines : (Document.ofText t).codeLines.drop n =
          code :: (Document.ofText t).codeLines.drop (n + 1) := by
        rw [List.drop_eq_getElem_cons hn, hget]
      have hbelow : linesBelow ((Document.ofText t).code.drop
          ((Document.ofText t).lineStart n + h.column)) =
            linesBelow (Text.joinLines ((Document.ofText t).codeLines.drop n)) := by
        rw [← List.drop_drop, hstart]
        obtain ⟨u, hu⟩ : ∃ u, Text.joinLines (code :: (Document.ofText t).codeLines.drop (n + 1)) =
            code ++ u := by
          cases (Document.ofText t).codeLines.drop (n + 1) with
          | nil => exact ⟨[], (List.append_nil _).symm⟩
          | cons l ls => exact ⟨'\n' :: Text.joinLines (l :: ls), rfl⟩
        refine linesBelow_drop ?_
        rw [hlines, hu, List.take_append_of_le_length hcolumn]
        exact hmark
      simp only [Option.map_some, Block.rough, hbelow]

/-- Two options that a function makes equal are both empty, or hold what it makes equal. -/
theorem none_or_some_of_map_eq {α β : Type} {f : α → β} {a b : Option α} (h : a.map f = b.map f) :
    (a = none ∧ b = none) ∨ ∃ x y, a = some x ∧ b = some y ∧ f x = f y := by
  cases a with
  | none => exact Or.inl ⟨rfl, Option.map_eq_none_iff.mp h.symm⟩
  | some x =>
    obtain ⟨y, hy, hxy⟩ := Option.map_eq_some_iff.mp h.symm
    exact Or.inr ⟨x, y, rfl, hy, hxy.symm⟩

section Documents

variable {t u : Text} {forms : List Form}

/-- **With the same tokens, the same lines declare the same blocks.**  Braces are tokens, so they
are the same ones from each line on. -/
theorem blockAt?_congr (hw : AreWords forms)
    (h : (Document.ofText t).codeLines.map tokens = (Document.ofText u).codeLines.map tokens)
    (n : Nat) :
    (blockAt? (.ofText t) forms n).map Block.rough =
      (blockAt? (.ofText u) forms n).map Block.rough := by
  have hbelow : linesBelow (Text.joinLines ((Document.ofText t).codeLines.drop n)) =
      linesBelow (Text.joinLines ((Document.ofText u).codeLines.drop n)) := by
    have hn (t : Text) : ∀ l ∈ (Document.ofText t).codeLines.drop n, '\n' ∉ l :=
      fun l hl => Text.no_newline_of_mem_lines (masked t) l (List.mem_of_mem_drop hl)
    have hdrop : ((Document.ofText t).codeLines.drop n).map tokens =
        ((Document.ofText u).codeLines.drop n).map tokens := by
      rw [List.map_drop, List.map_drop, h]
    rw [← linesBelow_filter, filter_joinLines_congr (hn t) (hn u) hdrop, linesBelow_filter]
  have hline : ((Document.ofText t).codeLines[n]?).map tokens =
      ((Document.ofText u).codeLines[n]?).map tokens := by
    rw [← List.getElem?_map, ← List.getElem?_map, h]
  rw [blockAt?_rough hw, blockAt?_rough hw, hbelow]
  rcases none_or_some_of_map_eq hline with ⟨ht, hu⟩ | ⟨c, c', ht, hu, htokens⟩
  · rw [ht, hu]
  · rw [ht, hu, Option.bind_some, Option.bind_some, htokens]

/-- A search for blocks comes upon the same ones, if every line declares the same. -/
theorem blocksFrom_congr {d d' : Document}
    (h : ∀ n, (blockAt? d forms n).map Block.rough = (blockAt? d' forms n).map Block.rough)
    (count : Nat) : ∀ n resume : Nat,
      (blocksFrom d forms count n resume).map Block.rough =
        (blocksFrom d' forms count n resume).map Block.rough := by
  induction count with
  | zero => exact fun _ _ => rfl
  | succ count ih =>
    intro n resume
    rw [blocksFrom, blocksFrom]
    split
    · exact ih _ _
    · rcases none_or_some_of_map_eq (h n) with ⟨hb, hb'⟩ | ⟨b, b', hb, hb', hrough⟩
      · rw [hb, hb']
        exact ih _ _
      · have hend : b.endLine = b'.endLine := congrArg (fun x => x.2.1 + x.2.2) hrough
        have htransparent : b.isTransparent = b'.isTransparent :=
          congrArg (fun x : (Text × Form) × Nat × Nat => x.1.2.kind == .module) hrough
        rw [hb, hb']
        dsimp only
        rw [List.map_cons, List.map_cons, hrough, hend, htransparent, ih]

end Documents
end Outline

/-! ## 4. Outlines -/

/-- Two spans start on the same line and stop on the same line. -/
def Span.SameLines (s s' : Span) : Prop :=
  s.start.line = s'.start.line ∧ s.stop.line = s'.stop.line

/-- **Two symbols are alike** when they are the same but for the columns of their spans, and so are
the symbols below them, one by one. -/
inductive Symbol.Alike : Symbol → Symbol → Prop
  | mk {name : Text} {detail : String} {kind : SymbolKind} {range range' : Span}
      {selection selection' : Span} {children children' : List Symbol}
      (hrange : range.SameLines range') (hselection : selection.SameLines selection')
      (hchildren : List.Forall₂ Symbol.Alike children children') :
    Symbol.Alike (.mk name detail kind range selection children)
      (.mk name detail kind range' selection' children')

namespace Outline

theorem areWords_topForms : AreWords topForms := by unfold AreWords; decide

theorem areWords_memberForms : AreWords memberForms := by unfold AreWords; decide

theorem toSymbol_alike {b b' : Block} (h : b.rough = b'.rough) (d d' : Document)
    {cs cs' : List Symbol} (hcs : List.Forall₂ Symbol.Alike cs cs') :
    (b.toSymbol d cs).Alike (b'.toSymbol d' cs') := by
  obtain ⟨⟨name, column, form⟩, line, below⟩ := b
  obtain ⟨⟨name', column', form'⟩, line', below'⟩ := b'
  simp only [Block.rough, Prod.mk.injEq] at h
  obtain ⟨⟨rfl, rfl⟩, rfl, rfl⟩ := h
  exact .mk ⟨rfl, rfl⟩ ⟨rfl, rfl⟩ hcs

/-- Blocks that are the same one by one make symbols that are alike one by one. -/
theorem forall₂_alike {bs bs' : List Block} (h : bs.map Block.rough = bs'.map Block.rough)
    {f g : Block → Symbol} (hfg : ∀ b b', b.rough = b'.rough → (f b).Alike (g b')) :
    List.Forall₂ Symbol.Alike (bs.map f) (bs'.map g) := by
  have heq : List.Forall₂ (· = ·) (bs.map Block.rough) (bs'.map Block.rough) := by
    rw [List.forall₂_eq_eq_eq]
    exact h
  have hrough : List.Forall₂ (fun b b' => Block.rough b = Block.rough b') bs bs' :=
    List.forall₂_map_right_iff.mp (List.forall₂_map_left_iff.mp heq)
  rw [List.forall₂_map_left_iff, List.forall₂_map_right_iff]
  exact hrough.imp hfg

section Documents

variable {t u : Text}

/-- **With the same tokens in the same lines of code, outlines are alike.**  The walk down the lines
goes by the lines of the blocks, and so comes to the same ones, among the members of a session as
well. -/
theorem symbols_alike (hcount : (Document.ofText t).lineCount = (Document.ofText u).lineCount)
    (h : (Document.ofText t).codeLines.map tokens = (Document.ofText u).codeLines.map tokens) :
    List.Forall₂ Symbol.Alike (symbols t) (symbols u) := by
  rw [symbols, symbols, symbolsOf, symbolsOf, hcount]
  refine forall₂_alike (blocksFrom_congr (blockAt?_congr areWords_topForms h) _ _ _) ?_
  intro b b' hrough
  refine toSymbol_alike hrough _ _ ?_
  have hform : b.heading.form = b'.heading.form := congrArg (·.1.2) hrough
  have hline : b.line = b'.line := congrArg (·.2.1) hrough
  have hbelow : b.linesBelow = b'.linesBelow := congrArg (·.2.2) hrough
  rw [hform]
  split
  · rw [members, members, Block.endLine, Block.endLine, hline, hbelow]
    refine forall₂_alike (blocksFrom_congr (blockAt?_congr areWords_memberForms h) _ _ _) ?_
    exact fun m m' hm => toSymbol_alike hm _ _ .nil
  · exact .nil

/-- **With the same tokens in the same lines of code, the same lines can be folded.** -/
theorem foldingRanges_congr
    (hcount : (Document.ofText t).lineCount = (Document.ofText u).lineCount)
    (h : (Document.ofText t).codeLines.map tokens = (Document.ofText u).codeLines.map tokens) :
    foldingRanges t = foldingRanges u := by
  have hrough (d : Document) (line : Nat) :
      ((blockAt? d topForms line).bind fun b =>
        if line < b.endLine then some (⟨line, b.endLine⟩ : FoldingRange) else none) =
      ((blockAt? d topForms line).map Block.rough).bind fun b =>
        if line < b.2.1 + b.2.2 then some ⟨line, ((b.2.1 + b.2.2 : Nat) : Int)⟩ else none := by
    rw [Option.bind_map]
    rfl
  rw [foldingRanges, foldingRanges, foldingRangesOf, foldingRangesOf, hcount]
  refine List.filterMap_congr fun line _ => ?_
  rw [hrough, hrough, blockAt?_congr areWords_topForms h]

end Documents
end Outline
end HypnoScript
