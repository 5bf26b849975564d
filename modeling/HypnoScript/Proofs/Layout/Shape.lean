/-
# What the shape of a line depends on

Two lines have `Alike` shapes when no check and no level of indentation can tell them apart: both
are blank or none, both are comments or none, they open and close the same braces and groups, and
their code starts with the same word and ends with the same character.

The counts depend on the code without its spaces and tabs alone (`of_congr`), the first word on its
tokens, the last character on its ink; blanks at either end of a line do not matter at all
(`of_between`).
-/
import HypnoScript.Layout
import HypnoScript.Proofs.Spacing.Line
import HypnoScript.Analysis

namespace HypnoScript
namespace LineShape

open Text (Gap tokens ink)
open Spacing (dense isGapChar)

/-! ## 1. Counting without spaces and tabs -/

theorem inLead_of_isGapChar {c : Char} (h : isGapChar c = true) : inLead c = true := by
  simp only [isGapChar, Bool.or_eq_true, beq_iff_eq] at h
  rcases h with rfl | rfl <;> decide

/-- Blanks are not counted. -/
theorem step_of_isBlank {c : Char} (h : Text.isBlank c = true) (t : Tally) : t.step c = t := by
  have hne {d : Char} (hd : Text.isBlank d = false) : c ≠ d := by
    rintro rfl
    exact Bool.false_ne_true (hd.symm.trans h)
  rw [Tally.step, if_neg (hne (by decide)), if_neg (hne (by decide)),
    if_neg (not_or.mpr ⟨hne (by decide), hne (by decide)⟩),
    if_neg (not_or.mpr ⟨hne (by decide), hne (by decide)⟩)]

theorem foldl_step_dense (t : Text) (tally : Tally) :
    (dense t).foldl Tally.step tally = t.foldl Tally.step tally := by
  induction t generalizing tally with
  | nil => rfl
  | cons c cs ih =>
    rw [dense, List.filter_cons, List.foldl_cons]
    cases hg : isGapChar c with
    | true => rw [step_of_isBlank (Spacing.isBlank_of_isGapChar hg)]; exact ih tally
    | false => exact ih (tally.step c)

/-- The leading closers, and what comes behind them, are found without spaces and tabs as well. -/
theorem lead_dense (t : Text) :
    ((dense t).takeWhile inLead).count '}' = (t.takeWhile inLead).count '}' ∧
      (dense t).dropWhile inLead = dense (t.dropWhile inLead) := by
  induction t with
  | nil => exact ⟨rfl, rfl⟩
  | cons c cs ih =>
    rw [dense, List.filter_cons]
    cases hg : isGapChar c with
    | true =>
      have hl := inLead_of_isGapChar hg
      have hc : c ≠ '}' := by rintro rfl; exact absurd hg (by decide)
      simp only [Bool.not_true, Bool.false_eq_true, if_false, List.takeWhile_cons, hl, if_true,
        List.dropWhile_cons, List.count_cons, beq_iff_eq, hc]
      exact ih
    | false =>
      cases hl : inLead c with
      | true =>
        simp only [Bool.not_false, if_true, List.takeWhile_cons, hl, List.dropWhile_cons,
          List.count_cons]
        exact ⟨congrArg (· + _) ih.1, ih.2⟩
      | false => simp [hl, dense, hg]

/-- Cutting at the ends and taking spaces and tabs out can be done in either order. -/
theorem dense_trim {t : Text} (hn : '\n' ∉ t) : dense t.trim = (dense t).trim := by
  obtain ⟨s, u, ht, hs, hu, hhead, hlast⟩ := Text.trim_spec hn
  have hdense (a b : Text) : dense (a ++ b) = dense a ++ dense b := List.filter_append ..
  have hgap {s : Text} (h : Gap s) : Gap (dense s) := fun c hc => h c (List.mem_filter.mp hc).1
  have hcons {c : Char} (h : Text.isBlank c = false) (cs : Text) :
      dense (c :: cs) = c :: dense cs := by
    have hg : isGapChar c = false := by
      refine Bool.eq_false_iff.mpr fun hg => ?_
      exact Bool.false_ne_true (h.symm.trans (Spacing.isBlank_of_isGapChar hg))
    simp [dense, hg]
  have hd : dense t = dense s ++ (dense t.trim ++ dense u) := by
    conv_lhs => rw [ht]
    rw [hdense, hdense]
  rw [hd, Text.trim_between (hgap hs) (hgap hu)]
  refine (Text.trim_of_ends (fun c hc => ?_) fun c hc => ?_).symm
  · cases hm : t.trim with
    | nil => rw [hm] at hc; exact absurd hc (by simp [dense])
    | cons d ds =>
      have hd : Text.isBlank d = false := hhead d (by rw [hm]; rfl)
      rw [hm, hcons hd] at hc
      exact Option.some.inj hc ▸ hd
  · rcases List.eq_nil_or_concat t.trim with hm | ⟨ds, d, hm⟩
    · rw [hm] at hc; exact absurd hc (by simp [dense])
    · have hd : Text.isBlank d = false := hlast d (by rw [hm]; simp)
      rw [hm, List.concat_eq_append, hdense, hcons hd] at hc
      simp only [dense, List.filter_nil, List.getLast?_append, List.getLast?_singleton,
        Option.some_or, Option.mem_def, Option.some.injEq] at hc
      exact hc ▸ hd

/-! ## 2. Shapes that cannot be told apart -/

/-- Two shapes that no check and no level can tell apart. -/
structure Alike (s s' : LineShape) : Prop where
  blank : s.isBlank = s'.isBlank
  comment : s.isComment = s'.isComment
  leadingClosers : s.leadingClosers = s'.leadingClosers
  opened : s.opened = s'.opened
  unmatchedClosers : s.unmatchedClosers = s'.unmatchedClosers
  openGroups : s.openGroups = s'.openGroups
  word : Text.leadingWord s.code = Text.leadingWord s'.code
  last : s.code.getLast? = s'.code.getLast?

theorem Alike.refl (s : LineShape) : Alike s s := ⟨rfl, rfl, rfl, rfl, rfl, rfl, rfl, rfl⟩

theorem Alike.trans {s s' s'' : LineShape} (h : Alike s s') (h' : Alike s' s'') :
    Alike s s'' where
  blank := h.blank.trans h'.blank
  comment := h.comment.trans h'.comment
  leadingClosers := h.leadingClosers.trans h'.leadingClosers
  opened := h.opened.trans h'.opened
  unmatchedClosers := h.unmatchedClosers.trans h'.unmatchedClosers
  openGroups := h.openGroups.trans h'.openGroups
  word := h.word.trans h'.word
  last := h.last.trans h'.last

/-- **A shape depends on the tokens of the code and on the code without its spaces and tabs**, but
for what the line itself tells.  Braces and groups are among the tokens; the leading closers are not
told by those, for a blank that is no space and no tab ends them. -/
theorem alike_of {l c l' c' : Text} (hn : '\n' ∉ c) (hn' : '\n' ∉ c')
    (hblank : (of l c).isBlank = (of l' c').isBlank)
    (hcomment : (of l c).isComment = (of l' c').isComment)
    (hdense : dense c = dense c') (htokens : tokens c = tokens c') :
    Alike (of l c) (of l' c') := by
  have htrim : dense c.trim = dense c'.trim := by rw [dense_trim hn, hdense, dense_trim hn']
  have hlead : ((c.trim).takeWhile inLead).count '}' = ((c'.trim).takeWhile inLead).count '}' := by
    rw [← (lead_dense _).1, htrim, (lead_dense _).1]
  have htally : ((c.trim).dropWhile inLead).foldl Tally.step ⟨0, 0, 0⟩ =
      ((c'.trim).dropWhile inLead).foldl Tally.step ⟨0, 0, 0⟩ := by
    rw [← foldl_step_dense, ← (lead_dense _).2, htrim, (lead_dense _).2, foldl_step_dense]
  refine ⟨hblank, hcomment, hlead, congrArg Tally.opened htally, congrArg Tally.unmatched htally,
    congrArg Tally.groups htally, ?_, ?_⟩
  · change Text.leadingWord c.trim = Text.leadingWord c'.trim
    rw [Text.leadingWord_trim hn, htokens, Text.leadingWord_trim hn']
  · change c.trim.getLast? = c'.trim.getLast?
    rw [Text.getLast?_trim hn, Text.getLast?_trim hn', ← Spacing.ink_dense, hdense,
      Spacing.ink_dense]

/-- A line is blank when it has no ink. -/
theorem isBlank_iff {l : Text} (hn : '\n' ∉ l) (code : Text) :
    (of l code).isBlank = true ↔ ink l = [] := by
  change l.trim.isEmpty = true ↔ _
  rw [List.isEmpty_iff, Text.trim_eq_nil_iff hn]

/-- Blanks at the ends of a line and of its masked copy do not matter. -/
theorem of_between {s u s' u' : Text} (hs : Gap s) (hu : Gap u) (hs' : Gap s') (hu' : Gap u')
    (l c : Text) : of (s ++ (l ++ u)) (s' ++ (c ++ u')) = of l c := by
  rw [of, Text.trim_between hs hu, Text.trim_between hs' hu']
  rfl

/-! ## 3. What is told from a shape -/

variable {s s' : LineShape}

/-- Words that consist of word characters. -/
def AreWords (words : List Text) : Prop := ∀ w ∈ words, ∀ c ∈ w, Text.isWord c = true

instance (words : List Text) : Decidable (AreWords words) :=
  decidable_of_iff (words.all (·.all Text.isWord) = true)
    (by simp only [AreWords, List.all_eq_true])

theorem Alike.startsWithWord (h : Alike s s') {words : List Text} (hw : AreWords words) :
    s.startsWithWord words = s'.startsWithWord words := by
  rw [LineShape.startsWithWord, LineShape.startsWithWord, Bool.eq_iff_iff, List.any_eq_true,
    List.any_eq_true]
  refine exists_congr fun w => and_congr_right fun hmem => ?_
  rw [Text.starts_iff (hw w hmem), Text.starts_iff (hw w hmem), h.word]

theorem Alike.isVerbatim (h : Alike s s') (r : Region) :
    Layout.isVerbatim s r = Layout.isVerbatim s' r := by
  rw [Layout.isVerbatim, Layout.isVerbatim, h.comment]

theorem Alike.levelOf (h : Alike s s') {dialect : Dialect} (hd : AreWords dialect.dedentKeywords)
    (level : Nat) : Layout.levelOf dialect s level = Layout.levelOf dialect s' level := by
  rw [Layout.levelOf, Layout.levelOf, h.leadingClosers, h.startsWithWord hd]

theorem Alike.nextLevel (h : Alike s s') (level : Nat) :
    Layout.nextLevel s level = Layout.nextLevel s' level := by
  rw [Layout.nextLevel, Layout.nextLevel, h.opened, h.leadingClosers, h.unmatchedClosers]

end LineShape
end HypnoScript
