/-
# What fixing does to literals and comments

Fixing a text puts terminators in behind the last code of lines, and the wrapper around the text.
It goes by masked copies, and does not ask in which region of the text a place is.  A line may end
inside of a literal; then the last thing that its masked copy shows may be the quotation mark that
starts the literal, and the terminator behind it becomes part of the literal.  In the same way the
closing wrapper becomes part of a literal or a block comment that is still open at the end of the
text.

So literals and comments stay as they are just when neither happens (`QuickFix.StaysOutside`), and
only then are they all found again (`lexemes_fixDocument`).  What is put in never starts a lexeme
and never ends one: it goes in between, or into one (`QuickFix.Filled`).
-/
import HypnoScript.Proofs.Masking.Lexemes
import HypnoScript.Proofs.QuickFix.Document

namespace HypnoScript

open Mask (inside codeLines scan Cut IsPlain cut_plain)
open Text (joinLines)

/-! ## 1. Places in a document -/

namespace Document

/-- The region of a place in the text. -/
def regionAt (d : Document) (p : Position) : Region :=
  Region.code.behind (d.text.take (d.offsetAt p))

/-- From line `n` on, which starts in `r`, the document has these lines. -/
structure HasFrom (d : Document) (n : Nat) (r : Region) (ls : List Text) : Prop where
  lines : d.lines.drop n = ls
  codeLines : d.codeLines.drop n = Mask.codeLines r ls
  text : d.text.drop (d.lineStart n) = joinLines ls
  behind : ∀ u, Region.code.behind (d.text.take (d.lineStart n) ++ u) = r.behind u

theorem HasFrom.first (t : Text) : HasFrom (ofText t) 0 .code (Text.lines t) where
  lines := rfl
  codeLines := codeLines_ofText t
  text := (Text.joinLines_lines t).symm
  behind _ := rfl

theorem HasFrom.next {d : Document} {n : Nat} {r : Region} {l : Text} {ls : List Text}
    (h : d.HasFrom n r (l :: ls)) (hne : ls ≠ []) :
    d.HasFrom (n + 1) (r.behind l).afterNewline ls := by
  have hstart : d.lineStart (n + 1) = d.lineStart n + (l ++ ['\n']).length := by
    rw [List.length_append]
    exact lineStartIn_succ h.lines
  have htext : d.text.drop (d.lineStart n) = (l ++ ['\n']) ++ joinLines ls := by
    rw [h.text, Text.joinLines_cons l hne, List.append_assoc]
    rfl
  refine ⟨?_, ?_, ?_, fun u => ?_⟩
  · rw [← List.tail_drop, h.lines, List.tail_cons]
  · rw [← List.tail_drop, h.codeLines, Mask.codeLines, List.tail_cons]
  · rw [hstart, ← List.drop_drop, htext, List.drop_left]
  · rw [hstart, List.take_add, htext, List.take_left, List.append_assoc, h.behind,
      List.append_assoc]
    exact Mask.behind_append_newline r l u

theorem HasFrom.lineLength {d : Document} {n : Nat} {r : Region} {l : Text} {ls : List Text}
    (h : d.HasFrom n r (l :: ls)) : d.lineLength n = l.length := by
  rw [Document.lineLength, getD_of_drop h.lines]

/-- The region of a place on a line depends on the line and the region in which it starts. -/
theorem HasFrom.regionAt {d : Document} {n : Nat} {r : Region} {l : Text} {ls : List Text}
    (h : d.HasFrom n r (l :: ls)) {k : Nat} (hk : k ≤ l.length) :
    d.regionAt ⟨n, k⟩ = r.behind (l.take k) := by
  have htake : (joinLines (l :: ls)).take k = l.take k := by
    cases ls with
    | nil => rfl
    | cons l' ls => exact List.take_append_of_le_length hk
  rw [Document.regionAt, offsetAt_of_drop h.lines hk, List.take_add, h.text, h.behind, htake]

theorem HasFrom.regionAt_end {d : Document} {n : Nat} {r : Region} {l : Text} {ls : List Text}
    (h : d.HasFrom n r (l :: ls)) : d.regionAt ⟨n, d.lineLength n⟩ = r.behind l := by
  rw [h.lineLength, h.regionAt (Nat.le_refl _), List.take_length]

end Document

/-- Something about all lines that lack their terminator, told line by line. -/
theorem Terminator.forall_mem_missingFrom {dialect : Dialect} {P : Nat → Prop} {n : Nat}
    {l c : Text} {ls cs : List Text} :
    (∀ m ∈ missingFrom dialect n (l :: ls) (c :: cs), P m) ↔
      (isMissing dialect (LineShape.of l c) → P n) ∧
        ∀ m ∈ missingFrom dialect (n + 1) ls cs, P m := by
  rw [missingFrom]
  split <;> simp [*]

namespace QuickFix

/-! ## 2. Filling up -/

/-- Characters have been put in among those of the lexemes, none of which starts a lexeme; and none
at all if it is safe. -/
structure Filled (safe : Prop) (old new : List (Bool × Char)) : Prop where
  sublist : old.Sublist new
  marks : new.countP (·.1) = old.countP (·.1)
  eq_iff : new = old ↔ safe

namespace Filled

variable {safe safe' : Prop} {old old' new new' : List (Bool × Char)}

theorem refl (ds : List (Bool × Char)) : Filled True ds ds := ⟨.refl _, rfl, by simp⟩

/-- Something has been put in. -/
theorem of_ne_nil (h : new ≠ []) (hmarks : new.countP (·.1) = 0) : Filled False [] new :=
  ⟨List.nil_sublist _, hmarks, by simpa using h⟩

theorem congr (h : Filled safe old new) (hsafe : safe ↔ safe') : Filled safe' old new :=
  ⟨h.sublist, h.marks, h.eq_iff.trans hsafe⟩

theorem append (h : Filled safe old new) (h' : Filled safe' old' new') :
    Filled (safe ∧ safe') (old ++ old') (new ++ new') := by
  refine ⟨h.sublist.append h'.sublist, ?_, ?_⟩
  · rw [List.countP_append, List.countP_append, h.marks, h'.marks]
  · rw [← h.eq_iff, ← h'.eq_iff]
    constructor
    · intro heq
      -- Neither part has become shorter, so neither has become longer.
      have hle := h.sublist.length_le
      have hle' := h'.sublist.length_le
      have hlength := congrArg List.length heq
      rw [List.length_append, List.length_append] at hlength
      exact List.append_inj heq (by omega)
    · rintro ⟨rfl, rfl⟩
      rfl

end Filled

/-! ## 3. A line with its terminator -/

variable {dialect : Dialect} {c : Char}

/-- The last code of a line is on the line. -/
theorem column_le (r : Region) (l : Text) : (scan r l).text.trimRight.length ≤ l.length := by
  rw [← Mask.length_scan r l]
  exact Text.length_trimRight_le _

/-- Behind its last code a line can be cut.  This is outside of lexemes, unless a literal has
started there that is still open at the end of the line. -/
theorem cut_trimRight {l : Text} (hl : '\n' ∉ l) (r : Region)
    (hne : (scan r l).text.trimRight ≠ []) :
    let n := (scan r l).text.trimRight.length
    Cut r (l.take n) (l.drop n) ∧ (r.behind (l.take n) = .code ∨ r.behind (l.take n) = .string) ∧
      (r.behind l = .string ↔ r.behind (l.take n) = .string) := by
  intro n
  obtain ⟨s, hs, hgap, hlast⟩ := Text.trimRight_spec (Mask.no_newline_scan (r := r) hl)
  have hn : n ≤ l.length := column_le r l
  have hlength : (l.take n).length = n := by rw [List.length_take, Nat.min_eq_left hn]
  have htake : (scan r l).text.take n = (scan r l).text.trimRight := by
    conv_lhs => rw [hs]
    exact List.take_left
  have hshows : Mask.Shows (l.take n).length (scan r (l.take n ++ l.drop n)).text := by
    rw [List.take_append_drop, hlength, Mask.Shows, htake]
    exact hlast
  have hp : l.take n ≠ [] := by
    intro h
    rw [h] at hlength
    exact hne (List.length_eq_zero_iff.mp hlength.symm)
  obtain ⟨hcut, hregion⟩ := Mask.cut_shown r (l.take n) (l.drop n) hshows
  refine ⟨hcut, hregion hp, ?_⟩
  have hrest : (scan (r.behind (l.take n)) (l.drop n)).text = s := by
    have htext := hcut.text
    rw [List.take_append_drop, hs] at htext
    exact (List.append_inj_right htext (by rw [Mask.length_scan, hlength])).symm
  have hbehind := hcut.behind
  rw [List.take_append_drop] at hbehind
  rw [hbehind]
  refine Mask.behind_eq_string_iff (fun h => hl (List.drop_subset _ _ h)) fun c hc => ?_
  rw [hrest] at hc
  exact (hgap c hc).1

/-- A plain character that is put in at a cut, in code or in a literal. -/
theorem filled_insert (hc : IsPlain c) (hn : c ≠ '\n') {r : Region} {p s : Text} (hcut : Cut r p s)
    (hregion : r.behind p = .code ∨ r.behind p = .string) :
    Filled (r.behind p ≠ .string) (inside r (p ++ s)) (inside r (p ++ c :: s)) ∧
      r.behind (p ++ c :: s) = r.behind (p ++ s) := by
  have hcut' := cut_plain hc r p s
  rw [hcut.inside, hcut.behind, hcut'.inside, hcut'.behind]
  rcases hregion with hregion | hregion
  · have ho : ¬ Mask.OpensComment c s := fun h => hc.1 h.1
    rw [hregion, Mask.inside_code hn hc.2.2.1 ho, Mask.behind_code hn hc.2.2.1 ho]
    exact ⟨(Filled.refl _).congr (by decide), rfl⟩
  · have hplain := Mask.inside_string_plain hc s
    have hone : Filled False [] [(false, c)] := .of_ne_nil (List.cons_ne_nil _ _) rfl
    rw [hregion, hplain.1, hplain.2]
    refine ⟨((Filled.refl _).append (hone.append (.refl (inside .string s)))).congr ?_, rfl⟩
    simp

/-- **A terminator that is put in on a line** changes its lexemes just when the line ends inside of
a literal, and it never changes the region in which the line ends. -/
theorem filled_withTerminator (hterm : dialect.terminator = [c]) (hc : IsPlain c) (hn : c ≠ '\n')
    {l : Text} (hl : '\n' ∉ l) (r : Region) :
    Filled (Terminator.isMissing dialect (LineShape.of l (scan r l).text) → r.behind l ≠ .string)
        (inside r l) (inside r (withTerminator dialect l (scan r l).text)) ∧
      r.behind (withTerminator dialect l (scan r l).text) = r.behind l := by
  unfold withTerminator
  split
  · rename_i hmissing
    obtain ⟨hcut, hregion, hstring⟩ :=
      cut_trimRight hl r (trimRight_ne_nil_of_isMissing hmissing)
    obtain ⟨hfilled, hbehind⟩ := filled_insert hc hn hcut hregion
    rw [List.take_append_drop] at hfilled hbehind
    rw [hterm, List.append_assoc, List.singleton_append]
    exact ⟨hfilled.congr (by simp [hmissing, hstring]), hbehind⟩
  · rename_i hmissing
    exact ⟨(Filled.refl _).congr (by simp [hmissing]), rfl⟩

/-! ## 4. All lines -/

/-- **The terminators of some lines** change the lexemes just when one of the lines that lack one
ends inside of a literal, and they never change the region in which the lines end.  So each line
starts in the region in which it started, and can be looked at on its own. -/
theorem filled_joinLines (hterm : dialect.terminator = [c]) (hc : IsPlain c) (hn : c ≠ '\n')
    {d : Document} : ∀ {ls : List Text} {n : Nat} {r : Region}, d.HasFrom n r ls →
      (∀ l ∈ ls, '\n' ∉ l) →
      let new := joinLines (List.zipWith (withTerminator dialect) ls (codeLines r ls))
      Filled (∀ m ∈ Terminator.missingFrom dialect n ls (codeLines r ls),
            d.regionAt ⟨m, d.lineLength m⟩ ≠ .string)
          (inside r (joinLines ls)) (inside r new) ∧
        r.behind new = r.behind (joinLines ls)
  | [], _, r, _, _ => ⟨(Filled.refl _).congr (by simp [Terminator.missingFrom]), rfl⟩
  | [l], n, r, hd, hl => by
    obtain ⟨hline, hbehind⟩ := filled_withTerminator hterm hc hn (hl l List.mem_cons_self) r
    refine ⟨hline.congr ?_, hbehind⟩
    rw [codeLines, Terminator.forall_mem_missingFrom, hd.regionAt_end]
    simp [Terminator.missingFrom]
  | l :: l' :: ls, n, r, hd, hl => by
    obtain ⟨hline, hbehind⟩ := filled_withTerminator hterm hc hn (hl l List.mem_cons_self) r
    obtain ⟨hrest, hbehind'⟩ := filled_joinLines hterm hc hn (hd.next (List.cons_ne_nil l' ls))
      fun x hx => hl x (List.mem_cons_of_mem _ hx)
    have hnew : List.zipWith (withTerminator dialect) (l' :: ls)
        (codeLines (r.behind l).afterNewline (l' :: ls)) ≠ [] := by
      rw [codeLines, List.zipWith_cons_cons]
      exact List.cons_ne_nil _ _
    intro new
    have hnew : new = withTerminator dialect l (scan r l).text ++ '\n' :: joinLines
        (List.zipWith (withTerminator dialect) (l' :: ls)
          (codeLines (r.behind l).afterNewline (l' :: ls))) := by
      rw [← Text.joinLines_cons _ hnew]
      rfl
    have hcut := fun p t => cut_plain (c := '\n') (by decide) r p t
    rw [hnew, Text.joinLines_cons l (List.cons_ne_nil l' ls), (hcut _ _).inside, (hcut _ _).inside,
      hbehind, Mask.inside_newline, Mask.inside_newline, Mask.behind_append_newline,
      Mask.behind_append_newline, hbehind]
    refine ⟨(hline.append ((Filled.refl _).append hrest)).congr ?_, hbehind'⟩
    rw [codeLines.eq_2 r l, Terminator.forall_mem_missingFrom (l := l), hd.regionAt_end, true_and]

/-- **A terminator is put in in code**, unless its line ends inside of a literal. -/
theorem regionAt_terminator (dialect : Dialect) {d : Document} :
    ∀ {ls : List Text} {n : Nat} {r : Region}, d.HasFrom n r ls → (∀ l ∈ ls, '\n' ∉ l) →
      ∀ m ∈ Terminator.missingFrom dialect n ls (codeLines r ls),
        (d.regionAt ⟨m, (d.codeLines.getD m []).trimRight.length⟩ = .code ↔
          d.regionAt ⟨m, d.lineLength m⟩ ≠ .string)
  | [], _, _, _, _ => by simp [Terminator.missingFrom]
  | l :: ls, n, r, hd, hl => by
    rw [codeLines, Terminator.forall_mem_missingFrom]
    constructor
    · intro hmissing
      obtain ⟨-, hregion, hstring⟩ :=
        cut_trimRight (hl l List.mem_cons_self) r (trimRight_ne_nil_of_isMissing hmissing)
      have hcode : d.codeLines.getD n [] = (scan r l).text := Document.getD_of_drop hd.codeLines
      rw [hcode, hd.regionAt (column_le r l), hd.regionAt_end, Ne, hstring]
      rcases hregion with h | h <;> simp [h]
    · cases ls with
      | nil => simp [Terminator.missingFrom]
      | cons l' ls =>
        exact regionAt_terminator dialect (hd.next (List.cons_ne_nil l' ls))
          fun x hx => hl x (List.mem_cons_of_mem _ hx)

/-! ## 5. The wrapper -/

/-- The opening wrapper is read on its own, whatever stands behind it. -/
theorem cut_openingParts (d : Document) (u : Text) :
    Cut .code (Edit.target (openingParts .standard d)) u := by
  unfold openingParts
  split
  · have htext : Edit.target [.put (openingEdit .standard).newText] =
        "Focus \x7b".toList ++ ['\n'] := by decide
    rw [htext]
    exact Mask.cut_newline .code _ u
  · exact .nil .code u

/-- The opening wrapper is code. -/
theorem inside_openingParts (d : Document) (u : Text) :
    inside .code (Edit.target (openingParts .standard d) ++ u) = inside .code u ∧
      Region.code.behind (Edit.target (openingParts .standard d) ++ u) = Region.code.behind u := by
  have hcode : inside .code (Edit.target (openingParts .standard d)) = [] ∧
      Region.code.behind (Edit.target (openingParts .standard d)) = .code := by
    unfold openingParts
    split <;> decide
  have hcut := cut_openingParts d u
  rw [hcut.inside, hcut.behind, hcode.1, hcode.2]
  exact ⟨rfl, rfl⟩

/-- What is put in behind the text: a line of its own. -/
def closingLine : Text := "\x7d Relax\n".toList

theorem target_closingParts (t : Text) :
    Edit.target (closingParts .standard (.ofText t)) =
      if lacks Dialect.standard.closeWrapper (.ofText t) then
        if (Document.ofText t).lineLength (Document.ofText t).lastLine = 0 then closingLine
        else '\n' :: closingLine
      else [] := by
  unfold closingParts
  split
  · simp only [Edit.target_put, Edit.target_nil, List.append_nil, closingEdit, Edit.insertAt]
    split <;> decide
  · rfl

/-- The closing wrapper is read on its own, whatever stands in front of it. -/
theorem cut_closingParts (r : Region) (p t : Text) :
    Cut r p (Edit.target (closingParts .standard (.ofText t))) := by
  rw [target_closingParts]
  split
  · split
    · exact cut_plain (c := '\x7d') (by decide) r p _
    · exact cut_plain (c := '\n') (by decide) r p _
  · exact ⟨by simp, by simp, by simp⟩

/-- A text whose last line is empty does not end in a line comment. -/
theorem behind_ne_lineComment {t : Text}
    (h : (Document.ofText t).lineLength (Document.ofText t).lastLine = 0) :
    Region.code.behind t ≠ .lineComment := by
  rcases Text.eq_of_last_line_nil ((Document.lineLength_lastLine_eq_zero_iff t).mp h) with
    rfl | ⟨u, rfl⟩
  · decide
  · rw [Mask.behind_append_newline, Mask.behind_nil]
    cases Region.code.behind u <;> decide

/-- **The closing wrapper** changes the lexemes just when a literal or a block comment is open.  A
line comment ends in front of it, since it is put on a line of its own. -/
theorem filled_closingParts (t : Text) :
    Filled (lacks Dialect.standard.closeWrapper (.ofText t) → (Region.code.behind t).isOpen = false)
      [] (inside (Region.code.behind t) (Edit.target (closingParts .standard (.ofText t)))) := by
  rw [target_closingParts]
  split
  · rename_i hlacks
    rw [hlacks]
    split
    · rename_i hempty
      have hregion := behind_ne_lineComment hempty
      cases hb : Region.code.behind t with
      | code => exact (Filled.refl []).congr (by decide)
      | lineComment => exact absurd hb hregion
      | string | blockComment => exact (Filled.of_ne_nil (by decide) (by decide)).congr (by decide)
    · cases Region.code.behind t with
      | code | lineComment => exact (Filled.refl []).congr (by decide)
      | string | blockComment => exact (Filled.of_ne_nil (by decide) (by decide)).congr (by decide)
  · rename_i hlacks
    rw [Mask.inside_nil]
    exact (Filled.refl []).congr (by simp [hlacks])

/-! ## 6. Fixing a text -/

/-- What fixing a text puts in stays outside of its literals and comments: no line that lacks its
terminator ends inside of a literal, and the closing wrapper, if it is missing, does not come behind
a literal or a block comment that is still open. -/
structure StaysOutside (dialect : Dialect) (w : Wording) (t : Text) : Prop where
  terminators : ∀ g ∈ analyze dialect w t, g.rule = some .missingTerminator →
    (Document.ofText t).regionAt g.range.stop ≠ .string
  wrapper : ∀ g ∈ analyze dialect w t, g.rule = some .noCloseWrapper →
    (Region.code.behind t).isOpen = false

/-- The same, told by the lines and the word that are missing. -/
theorem staysOutside_iff (dialect : Dialect) (w : Wording) (t : Text) :
    StaysOutside dialect w t ↔
      (∀ m ∈ Terminator.missingLines dialect (.ofText t), (Document.ofText t).regionAt
          ⟨m, (Document.ofText t).lineLength m⟩ ≠ .string) ∧
        (lacks dialect.closeWrapper (.ofText t) → (Region.code.behind t).isOpen = false) := by
  have hclosing := (any_rule_diagnostics dialect w t).2
  constructor
  · intro h
    refine ⟨fun m hm => ?_, fun hlacks => ?_⟩
    · have hcheck : _ ∈ Terminator.check dialect w _ := List.mem_map_of_mem hm
      have hg := Terminator.mem_check_iff.mp hcheck
      exact h.terminators _ hg.1 hg.2
    · rw [← hclosing, List.any_eq_true] at hlacks
      obtain ⟨g, hg, hrule⟩ := hlacks
      exact h.wrapper g hg (by simpa using hrule)
  · rintro ⟨hlines, hwrapper⟩
    refine ⟨fun g hg hrule => ?_, fun g hg hrule => hwrapper ?_⟩
    · obtain ⟨n, hn, rfl⟩ := List.mem_map.mp (Terminator.mem_check_iff.mpr ⟨hg, hrule⟩)
      exact hlines n hn
    · rw [← hclosing, List.any_eq_true]
      exact ⟨g, hg, by simpa using hrule⟩

/-- **What fixing a text puts in fills its lexemes up** just when it does not stay outside. -/
theorem filled_fixDocument (w : Wording) (t : Text) :
    ∃ y, fixDocument .standard w t = .ok y ∧
      Filled (StaysOutside .standard w t) (inside .code t) (inside .code y) := by
  refine ⟨_, fixDocument_eq .standard w t, ?_⟩
  have hterm : Dialect.standard.terminator = [';'] := rfl
  obtain ⟨hlines, hbehind⟩ := filled_joinLines hterm (by decide) (by decide)
    (Document.HasFrom.first t) (Text.no_newline_of_mem_lines t)
  have hclosing := filled_closingParts t
  rw [← Document.codeLines_ofText, Text.joinLines_lines] at hlines hbehind
  have hregion : Region.code.behind (joinLines (List.zipWith (withTerminator .standard)
      (Document.ofText t).lines (Document.ofText t).codeLines)) = Region.code.behind t := hbehind
  rw [(inside_openingParts _ _).1, (cut_closingParts .code _ t).inside, hregion]
  have hfilled := hlines.append hclosing
  rw [List.append_nil] at hfilled
  exact hfilled.congr (staysOutside_iff .standard w t).symm

end QuickFix

open QuickFix (StaysOutside addTerminator)

/-- **Fixing a text keeps its literals and comments just when what is put in stays outside of
them**; then it has the same ones as before.  And each terminator is put in in code just when its
line does not end inside of a literal.

For the one direction it is not enough that something is put into a lexeme: others could make up for
it.  They cannot, as characters are only added and none is taken away, and a lexeme that has grown
makes the whole longer (`QuickFix.Filled`). -/
theorem lexemes_fixDocument (w : Wording) (t : Text) :
    ∃ y, fixDocument .standard w t = .ok y ∧
      ((lexemes t).Sublist (lexemes y) ↔ StaysOutside .standard w t) ∧
      (StaysOutside .standard w t → lexemes y = lexemes t) ∧
      ∀ g ∈ analyze .standard w t, g.rule = some .missingTerminator →
        ∃ fix p, addTerminator .standard w (.ofText t) g = .ok fix ∧
          fix.edits = [Edit.insertAt p Dialect.standard.terminator] ∧
          ((Document.ofText t).regionAt p = .code ↔
            (Document.ofText t).regionAt g.range.stop ≠ .string) := by
  obtain ⟨y, hy, hfilled⟩ := QuickFix.filled_fixDocument w t
  have hkeeps : StaysOutside .standard w t → lexemes y = lexemes t := by
    intro hstays
    rw [lexemes, lexemes, hfilled.eq_iff.mpr hstays]
  refine ⟨y, hy, ⟨fun hsub => hfilled.eq_iff.mp ?_, fun h => ?_⟩, hkeeps, fun g hg hrule => ?_⟩
  · -- There are as many lexemes as before, so they are the same, and nothing has been put in.
    have hlexemes : lexemes t = lexemes y := by
      refine hsub.eq_of_length ?_
      rw [Mask.length_lexemes, Mask.length_lexemes, hfilled.marks]
    have hlength := congrArg (fun ls => (List.flatten ls).length) hlexemes
    simp only [Mask.length_flatten_lexemes] at hlength
    exact (hfilled.sublist.eq_of_length hlength).symm
  · rw [hkeeps h]
  · obtain ⟨n, hn, rfl⟩ := List.mem_map.mp (Terminator.mem_check_iff.mpr ⟨hg, hrule⟩)
    refine ⟨_, _, QuickFix.addTerminator_eq_ok .standard w
      (Document.hasLines_of_mem_diagnostics hg), rfl, ?_⟩
    have hregion := QuickFix.regionAt_terminator .standard
      (Document.HasFrom.first t) (Text.no_newline_of_mem_lines t)
    rw [← Document.codeLines_ofText] at hregion
    exact hregion n hn

/-- The terminator gets into a literal that goes on below: behind the quotation mark, nothing on the
line is code. -/
theorem fixDocument_openString :
    let t := "Focus \x7b\nobserve \"a\nb\";\n\x7d Relax\n".toList
    let y := "Focus \x7b\nobserve \";a\nb\";\n\x7d Relax\n".toList
    fixDocument .standard .standard t = .ok y ∧
      lexemes t = ["\"a\nb\"".toList] ∧ lexemes y = ["\";a\nb\"".toList] ∧
      ¬ (lexemes t).Sublist (lexemes y) ∧
      (Document.ofText t).regionAt ⟨1, "observe \"".length⟩ = .string := by
  intro t y
  refine ⟨?_, by decide, by decide, by decide, by decide⟩
  rw [fixDocument_eq]
  decide +kernel

end HypnoScript
