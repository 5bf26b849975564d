/-
# Lines with their terminators

The part of fixing that works on lines (`QuickFix.terminate`) puts a terminator in behind the last
code of every line that lacks one, and that is all it does: for a terminator that is a sign of its
own (`Dialect.TerminatedBy`),

* the text ends in the same region as before (`behind_terminate`);
* its code has the same tokens, but for terminators (`tokensBut_terminate`);
* none of its lines lacks the terminator any more, unless a literal goes on behind a line
  (`allTerminated_terminate`).

In a line that ends inside of a literal, the terminator gets into the literal.  Then it is hidden
like everything else in there, so the first two still hold, but the line still lacks its terminator.

All of this is shown for one line, and then for a text by putting a line in front of it
(`Text.line_induction`).
-/
import HypnoScript.Proofs.Layout.Analysis
import HypnoScript.Proofs.QuickFix.Lexemes

namespace HypnoScript

open Mask (codeLines scan hide IsPlain cut_plain)
open Text (Gap joinLines lines tokens isBlank isWord headIsWord)

/-- The terminator is one sign, which is read on its own wherever it stands. -/
structure Dialect.TerminatedBy (dialect : Dialect) (c : Char) : Prop where
  terminator : dialect.terminator = [c]
  plain : IsPlain c
  not_word : isWord c = false
  not_blank : isBlank c = false

theorem Dialect.terminatedBy_standard : standard.TerminatedBy ';' :=
  ⟨rfl, by decide, by decide, by decide⟩

theorem Dialect.TerminatedBy.ne_newline {dialect : Dialect} {c : Char}
    (h : dialect.TerminatedBy c) : c ≠ '\n' := by
  rintro rfl
  exact absurd h.not_blank (by decide)

/-! ## 1. Tokens but for a sign -/

namespace Text

/-- The tokens of a text, but for a sign. -/
def tokensBut (c : Char) (t : Text) : List Token := (tokens t).filter (· ≠ .sign c)

theorem tokensBut_append {c : Char} {t s : Text} (h : headIsWord s = false) :
    tokensBut c (t ++ s) = tokensBut c t ++ tokensBut c s := by
  rw [tokensBut, tokens_append h, List.filter_append]
  rfl

theorem tokensBut_blank_cons (c : Char) {b : Char} (hb : isBlank b = true) (t : Text) :
    tokensBut c (b :: t) = tokensBut c t := by
  rw [tokensBut, tokens_blank_cons hb, tokensBut]

theorem tokensBut_sign_cons {c : Char} (hw : isWord c = false) (hb : isBlank c = false) (t : Text) :
    tokensBut c (c :: t) = tokensBut c t := by
  rw [tokensBut, tokens_sign_cons hw hb, List.filter_cons_of_neg (by simp), tokensBut]

/-- Lines one below the other. -/
theorem tokensBut_append_newline (c : Char) (t s : Text) :
    tokensBut c (t ++ '\n' :: s) = tokensBut c t ++ tokensBut c s := by
  rw [tokensBut_append (by rfl), tokensBut_blank_cons c (by decide)]

theorem word_mem_tokensBut {c : Char} {w t : Text} :
    .word w ∈ tokensBut c t ↔ .word w ∈ tokens t := by
  simp [tokensBut]

end Text

open Text (tokensBut)

namespace QuickFix

variable {dialect : Dialect} {c : Char}

/-! ## 2. A line -/

/-- **The masked copy of a line that gets its terminator** is the old one with the terminator behind
the last code, or with what hides it if the line ends inside of a literal. -/
theorem masked_withTerminator (hc : dialect.TerminatedBy c) {l : Text} (hl : '\n' ∉ l) (r : Region)
    (hmissing : Terminator.isMissing dialect (LineShape.of l (scan r l).text)) :
    ∃ m b, Gap b ∧ (scan r l).text = m ++ b ∧
      (scan r (withTerminator dialect l (scan r l).text)).text =
        m ++ (if r.behind l = .string then hide c else c) :: b := by
  obtain ⟨hcut, hregion, hstring⟩ := cut_trimRight hl r (trimRight_ne_nil_of_isMissing hmissing)
  obtain ⟨b, hb, hgap, -⟩ := Text.trimRight_spec (Mask.no_newline_scan (r := r) hl)
  rw [withTerminator, if_pos hmissing, hc.terminator, List.append_assoc, List.singleton_append]
  generalize hn : (scan r l).text.trimRight.length = n at *
  have hfirst : (scan r (l.take n)).text.length = (scan r l).text.trimRight.length := by
    rw [Mask.length_scan, List.length_take, ← hn, Nat.min_eq_left (column_le r l)]
  have htext := hcut.text
  rw [List.take_append_drop, hb] at htext
  obtain ⟨hm, hrest⟩ := List.append_inj htext.symm hfirst
  refine ⟨_, b, hgap, hb, ?_⟩
  rw [(cut_plain hc.plain r _ _).text, hm]
  congr 1
  rcases hregion with h | h <;> rw [h] at hrest hstring ⊢
  · rw [if_neg (by simp [hstring]), ← hrest]
    have ho : ¬ Mask.OpensComment c (l.drop n) := fun ho => hc.plain.1 ho.1
    exact congrArg Mask.text (Mask.scan_code hc.ne_newline hc.plain.2.2.1 ho)
  · rw [if_pos (hstring.mpr rfl), ← hrest]
    have he : ¬ Mask.Escapes c (l.drop n) := fun he => hc.plain.2.2.2 he.1
    exact congrArg Mask.text (Mask.scan_string hc.ne_newline hc.plain.2.2.1 he)

/-- **A line that has got its terminator does not lack it**, unless it ends inside of a literal.
Its last code is the terminator now, and what it starts with is as before. -/
theorem isMissing_withTerminator (hc : dialect.TerminatedBy c) {l : Text} (hl : '\n' ∉ l)
    {r : Region} (hstring : r.behind l ≠ .string) :
    let l' := withTerminator dialect l (scan r l).text
    Terminator.isMissing dialect (LineShape.of l' (scan r l').text) = false := by
  intro l'
  cases hmissing : Terminator.isMissing dialect (LineShape.of l (scan r l).text) with
  | false =>
    have hl' : l' = l := if_neg (by simp [hmissing])
    rw [hl', hmissing]
  | true =>
    obtain ⟨m, b, hgap, hm, hm'⟩ := masked_withTerminator hc hl r hmissing
    rw [if_neg hstring] at hm'
    have hlast : (scan r l').text.trim.getLast? = some c := by
      have hn : '\n' ∉ (scan r l').text := by
        have hold := Mask.no_newline_scan (r := r) hl
        rw [hm] at hold
        rw [hm']
        simp_all [hc.ne_newline.symm]
      rw [Text.getLast?_trim hn, hm', Text.ink_append, Text.ink_cons hc.not_blank,
        Text.ink_gap hgap, List.getLast?_append]
      rfl
    have hends : Text.endsWith (scan r l').text.trim dialect.terminator = true := by
      rw [hc.terminator, Text.endsWith_singleton]
      exact beq_iff_eq.mpr hlast
    simp [Terminator.isMissing, LineShape.of, hends]

theorem tokensBut_withTerminator (hc : dialect.TerminatedBy c) {l : Text} (hl : '\n' ∉ l)
    (r : Region) :
    tokensBut c (scan r (withTerminator dialect l (scan r l).text)).text =
      tokensBut c (scan r l).text := by
  by_cases hmissing : Terminator.isMissing dialect (LineShape.of l (scan r l).text)
  · obtain ⟨m, b, hgap, hm, hm'⟩ := masked_withTerminator hc hl r hmissing
    have hb : headIsWord b = false := Text.headIsWord_of_blank hgap.all
    rw [hm', hm]
    split
    · have hblank : isBlank (hide c) = true := Mask.isBlank_hide c
      have hhead : headIsWord (hide c :: b) = false := Text.isWord_eq_false_of_isBlank hblank
      rw [Text.tokensBut_append hhead, Text.tokensBut_append hb,
        Text.tokensBut_blank_cons c hblank]
    · have hhead : headIsWord (c :: b) = false := hc.not_word
      rw [Text.tokensBut_append hhead, Text.tokensBut_append hb,
        Text.tokensBut_sign_cons hc.not_word hc.not_blank]
  · rw [withTerminator, if_neg hmissing]

theorem no_newline_withTerminator (hc : dialect.TerminatedBy c) {l : Text} (hl : '\n' ∉ l)
    (code : Text) : '\n' ∉ withTerminator dialect l code := by
  unfold withTerminator
  split
  · intro hm
    rw [hc.terminator, List.mem_append, List.mem_append, List.mem_singleton] at hm
    rcases hm with (hm | hm) | hm
    · exact hl (List.take_subset _ _ hm)
    · exact hc.ne_newline hm.symm
    · exact hl (List.drop_subset _ _ hm)
  · exact hl

theorem behind_withTerminator (hc : dialect.TerminatedBy c) {l : Text} (hl : '\n' ∉ l)
    (r : Region) : r.behind (withTerminator dialect l (scan r l).text) = r.behind l :=
  (filled_withTerminator hc.terminator hc.plain hc.ne_newline hl r).2

/-! ## 3. A text -/

/-- The text, which starts in a region, with the terminators of the lines that lack theirs. -/
def terminate (dialect : Dialect) (r : Region) (t : Text) : Text :=
  joinLines (List.zipWith (withTerminator dialect) (lines t) (codeLines r (lines t)))

theorem terminate_of_no_newline (dialect : Dialect) (r : Region) {l : Text} (hl : '\n' ∉ l) :
    terminate dialect r l = withTerminator dialect l (scan r l).text := by
  rw [terminate, Text.lines_of_no_newline hl]
  rfl

theorem terminate_append_newline (dialect : Dialect) (r : Region) (t u : Text) :
    terminate dialect r (t ++ '\n' :: u) =
      terminate dialect r t ++ '\n' :: terminate dialect (r.behind t).afterNewline u := by
  have hne : ∀ (r : Region) (t : Text),
      List.zipWith (withTerminator dialect) (lines t) (codeLines r (lines t)) ≠ [] := by
    intro r t h
    have hlength := congrArg List.length h
    rw [List.length_zipWith, Mask.length_codeLines, Nat.min_self] at hlength
    exact Text.lines_ne_nil t (List.length_eq_zero_iff.mp hlength)
  rw [terminate, Text.lines_append_newline, ← Text.lines_append_newline,
    Mask.codeLines_append_newline, Text.lines_append_newline,
    List.zipWith_append (Mask.length_codeLines _ _).symm, Text.joinLines_append (hne r t) (hne _ u)]
  rfl

/-- **The terminators do not change the region in which a text ends.**  In code a terminator opens
nothing, and in a literal or a comment it is a character like any other. -/
theorem behind_terminate (hc : dialect.TerminatedBy c) (r : Region) (t : Text) :
    r.behind (terminate dialect r t) = r.behind t := by
  induction t using Text.line_induction generalizing r with
  | last l hl => rw [terminate_of_no_newline dialect r hl, behind_withTerminator hc hl]
  | line l t hl ih =>
    rw [terminate_append_newline, terminate_of_no_newline dialect r hl, Mask.behind_append_newline,
      Mask.behind_append_newline, behind_withTerminator hc hl, ih]

/-- **The terminators are all that is new among the tokens of the code.**  One that gets into a
literal is no token at all. -/
theorem tokensBut_terminate (hc : dialect.TerminatedBy c) (r : Region) (t : Text) :
    tokensBut c (scan r (terminate dialect r t)).text = tokensBut c (scan r t).text := by
  induction t using Text.line_induction generalizing r with
  | last l hl => rw [terminate_of_no_newline dialect r hl, tokensBut_withTerminator hc hl]
  | line l t hl ih =>
    rw [terminate_append_newline, terminate_of_no_newline dialect r hl, Mask.scan_append_newline,
      Mask.scan_append_newline, behind_withTerminator hc hl, Text.tokensBut_append_newline,
      Text.tokensBut_append_newline, tokensBut_withTerminator hc hl, ih]

/-! ## 4. Texts in which no terminator is missing -/

/-- No line of a text, which starts in a region, lacks its terminator. -/
def AllTerminated (dialect : Dialect) (r : Region) (t : Text) : Prop :=
  ∀ p ∈ (lines t).zip (codeLines r (lines t)),
    Terminator.isMissing dialect (LineShape.of p.1 p.2) = false

instance (dialect : Dialect) (r : Region) (t : Text) : Decidable (AllTerminated dialect r t) :=
  inferInstanceAs (Decidable (∀ p ∈ (lines t).zip (codeLines r (lines t)),
    Terminator.isMissing dialect (LineShape.of p.1 p.2) = false))

theorem allTerminated_of_no_newline {r : Region} {l : Text} (hl : '\n' ∉ l) :
    AllTerminated dialect r l ↔
      Terminator.isMissing dialect (LineShape.of l (scan r l).text) = false := by
  rw [AllTerminated, Text.lines_of_no_newline hl]
  simp [codeLines]

theorem allTerminated_append_newline {r : Region} {t u : Text} :
    AllTerminated dialect r (t ++ '\n' :: u) ↔
      AllTerminated dialect r t ∧ AllTerminated dialect (r.behind t).afterNewline u := by
  rw [AllTerminated, Mask.codeLines_append_newline, Text.lines_append_newline,
    List.zip_append (Mask.length_codeLines _ _).symm]
  exact List.forall_mem_append

/-- **All lines of a text have their terminators when they have got them**, if no literal goes on
behind a line.  Each line starts in the region in which it started, so it is enough to look at lines
one by one. -/
theorem allTerminated_terminate (hc : dialect.TerminatedBy c) {r : Region} {t : Text}
    (hlines : .string ∉ (scan r t).regions) (hend : r.behind t ≠ .string) :
    AllTerminated dialect r (terminate dialect r t) := by
  induction t using Text.line_induction generalizing r with
  | last l hl =>
    rw [terminate_of_no_newline dialect r hl,
      allTerminated_of_no_newline (no_newline_withTerminator hc hl _)]
    exact isMissing_withTerminator hc hl hend
  | line l t hl ih =>
    rw [Mask.scan_append_newline, List.mem_append, List.mem_cons, not_or, not_or] at hlines
    obtain ⟨-, hnext, hrest⟩ := hlines
    have hstring : r.behind l ≠ .string := by
      intro h
      exact hnext (by rw [h]; rfl)
    rw [Mask.behind_append_newline] at hend
    rw [terminate_append_newline, terminate_of_no_newline dialect r hl,
      allTerminated_append_newline, behind_withTerminator hc hl,
      allTerminated_of_no_newline (no_newline_withTerminator hc hl _)]
    exact ⟨isMissing_withTerminator hc hl hstring, ih hrest hend⟩

/-- A text in which no terminator is missing gets none. -/
theorem AllTerminated.terminate_eq {r : Region} {t : Text} (h : AllTerminated dialect r t) :
    terminate dialect r t = t := by
  induction t using Text.line_induction generalizing r with
  | last l hl =>
    rw [allTerminated_of_no_newline hl] at h
    rw [terminate_of_no_newline dialect r hl, withTerminator, if_neg (by simp [h])]
  | line l t hl ih =>
    rw [allTerminated_append_newline, allTerminated_of_no_newline hl] at h
    rw [terminate_append_newline, terminate_of_no_newline dialect r hl, withTerminator,
      if_neg (by simp [h.1]), ih h.2]

/-- No line of a text is found to lack its terminator just when none does. -/
theorem missingLines_eq_nil_iff {t : Text} :
    Terminator.missingLines dialect (.ofText t) = [] ↔ AllTerminated dialect .code t := by
  rw [Terminator.missingLines, Terminator.missingFrom_eq_nil_iff, Document.codeLines_ofText]
  rfl

end QuickFix
end HypnoScript
