/-
# Indentation is a walk along the braces, reflected at zero

Each line of code takes a walk on the integers up by its opening braces and down by its closing
ones (`Layout.height`).  Layout does not follow this walk: behind a line that closes more than is
open the level is zero, and the surplus is forgotten.  So the level in front of a line is the height
there less the lowest height up to there (`levelBehind_take`), which is the walk reflected at zero.

All lines take part, those that stay as they are too: behind the end of a comment or a literal there
may be braces.  What a line shows of its level, when it is code and no comment, is `format_indents`.
-/
import HypnoScript.Proofs.Layout.Text

namespace HypnoScript
namespace Layout

open Mask
open Text (Gap ink)

/-! ## 1. The braces of a line -/

/-- The opening braces of a text less its closing ones. -/
def rise (code : Text) : Int := code.count '{' - code.count '}'

@[simp] theorem rise_nil : rise [] = 0 := rfl

theorem rise_append (t u : Text) : rise (t ++ u) = rise t + rise u := by
  simp only [rise, List.count_append]
  omega

/-- What a character lifts the height by. -/
def lift (c : Char) : Int := if c = '{' then 1 else if c = '}' then -1 else 0

theorem rise_cons (c : Char) (t : Text) : rise (c :: t) = lift c + rise t := by
  by_cases ho : c = '{'
  · subst ho
    simp [rise, lift]
    omega
  · by_cases hc : c = '}'
    · subst hc
      simp [rise, lift]
      omega
    · simp [rise, lift, ho, hc]

/-- Blanks are no braces. -/
theorem rise_gap {s : Text} (hs : Gap s) : rise s = 0 := by
  have hnot {c : Char} (hc : Text.isBlank c = false) : c ∉ s := by
    intro h
    exact Bool.false_ne_true (hc.symm.trans (hs c h).1)
  rw [rise, List.count_eq_zero_of_not_mem (hnot (by decide)),
    List.count_eq_zero_of_not_mem (hnot (by decide))]
  rfl

theorem rise_trim {code : Text} (hn : '\n' ∉ code) : rise code.trim = rise code := by
  obtain ⟨s, u, hcode, hs, hu, -⟩ := Text.trim_spec hn
  conv_rhs => rw [hcode]
  rw [rise_append, rise_append, rise_gap hs, rise_gap hu, Int.zero_add, Int.add_zero]

/-- A character lifts a tally by what it lifts the height by. -/
theorem lift_step (tally : LineShape.Tally) (c : Char) :
    ((tally.step c).opened : Int) - (tally.step c).unmatched =
      tally.opened - tally.unmatched + lift c := by
  rw [LineShape.Tally.step, lift]
  by_cases ho : c = '{'
  · simp only [ho, if_true]
    omega
  · by_cases hc : c = '}'
    · simp only [hc, if_neg (show '}' ≠ '{' by decide), if_true]
      split
      · simp only []
        omega
      · simp only []
        omega
    · simp only [if_neg ho, if_neg hc, Int.add_zero]
      split
      · rfl
      · split <;> rfl

/-- A tally has counted what the text rises. -/
theorem rise_foldl_step (t : Text) : ∀ tally : LineShape.Tally,
    ((t.foldl LineShape.Tally.step tally).opened : Int) -
        (t.foldl LineShape.Tally.step tally).unmatched =
      tally.opened - tally.unmatched + rise t := by
  induction t with
  | nil => intro tally; rw [List.foldl_nil, rise_nil, Int.add_zero]
  | cons c t ih =>
    intro tally
    rw [List.foldl_cons, ih (tally.step c), lift_step, rise_cons, Int.add_assoc]

/-- There are no opening braces among the leading closers. -/
theorem rise_takeWhile_inLead (t : Text) :
    rise (t.takeWhile LineShape.inLead) = -((t.takeWhile LineShape.inLead).count '}' : Int) := by
  have hnone : '{' ∉ t.takeWhile LineShape.inLead := by
    intro h
    exact absurd (List.mem_takeWhile_imp h) (by decide)
  rw [rise, List.count_eq_zero_of_not_mem hnone]
  omega

/-- **The three counts of a shape make up what its code rises**: whichever braces they pair, they
count all of them, those of a pair against each other. -/
theorem rise_of_shape (line : Text) {code : Text} (hn : '\n' ∉ code) :
    let s := LineShape.of line code
    (s.opened : Int) - s.leadingClosers - s.unmatchedClosers = rise code := by
  intro s
  have htally : (s.opened : Int) - s.unmatchedClosers =
      rise (code.trim.dropWhile LineShape.inLead) := by
    have h := rise_foldl_step (code.trim.dropWhile LineShape.inLead) ⟨0, 0, 0⟩
    rwa [Int.natCast_zero, Int.sub_zero, Int.zero_add] at h
  have hlead : rise (code.trim.takeWhile LineShape.inLead) = -(s.leadingClosers : Int) :=
    rise_takeWhile_inLead code.trim
  have htrim := rise_trim hn
  rw [← List.takeWhile_append_dropWhile (p := LineShape.inLead) (l := code.trim), rise_append,
    hlead] at htrim
  omega

/-! ## 2. The level in front of a line -/

/-- The height behind the first `k` lines of code: their opening braces less their closing ones. -/
def height (codes : List Text) (k : Nat) : Int :=
  let before := (codes.take k).flatten
  before.count '{' - before.count '}'

/-- The lowest height behind at most `k` lines. -/
def lowest (codes : List Text) : Nat → Int
  | 0 => height codes 0
  | k + 1 => min (lowest codes k) (height codes (k + 1))

/-- The level behind some lines of code, from the one in front of them. -/
def levelBehind (level : Nat) (codes : List Text) : Nat :=
  codes.foldl (fun level code => (level + rise code).toNat) level

theorem nextLevel_eq (line : Text) {code : Text} (hn : '\n' ∉ code) (level : Nat) :
    nextLevel (.of line code) level = (level + rise code).toNat := by
  have hrise := rise_of_shape line hn
  rw [nextLevel, ← hrise]
  omega

theorem height_succ {codes : List Text} {k : Nat} (hk : k < codes.length) :
    height codes (k + 1) = height codes k + rise codes[k] := by
  have hrise (k : Nat) : height codes k = rise (codes.take k).flatten := rfl
  rw [hrise, hrise, List.take_succ_eq_append_getElem hk, List.flatten_append, rise_append,
    List.flatten_singleton]

/-- **The level is the height, reflected at zero.**  Behind each line it is the level in front of
the line and what its code rises, or zero if that is negative; and it is just then that the height
has come to a new lowest point. -/
theorem levelBehind_take (codes : List Text) {k : Nat} (hk : k ≤ codes.length) :
    (levelBehind 0 (codes.take k) : Int) = height codes k - lowest codes k := by
  induction k with
  | zero => simp [levelBehind, height, lowest]
  | succ k ih =>
    have ih := ih (Nat.le_of_succ_le hk)
    have hstep : levelBehind 0 (codes.take (k + 1)) =
        (levelBehind 0 (codes.take k) + rise codes[k]).toNat := by
      rw [levelBehind, List.take_succ_eq_append_getElem hk, List.foldl_append]
      rfl
    rw [hstep, lowest, height_succ hk, ih]
    omega

/-- Line `k` is laid out at the level behind the lines in front of it. -/
theorem getElem?_layLines (dialect : Dialect) {line code : Text} {r : Region} {k : Nat} :
    ∀ {ls codes : List Text} {regions : List Region} (level : Nat),
      (∀ code ∈ codes, '\n' ∉ code) → ls[k]? = some line → codes[k]? = some code →
      regions[k]? = some r →
      (layLines dialect level ls codes regions)[k]? =
        some (layLine dialect (levelBehind level (codes.take k)) (.of line code) line code r
          (regions[k + 1]? == some .string)) := by
  induction k with
  | zero =>
    intro ls codes regions level _ hline hcode hregion
    obtain ⟨ls, rfl⟩ := List.head?_eq_some_iff.mp (List.head?_eq_getElem? ▸ hline)
    obtain ⟨codes, rfl⟩ := List.head?_eq_some_iff.mp (List.head?_eq_getElem? ▸ hcode)
    obtain ⟨regions, rfl⟩ := List.head?_eq_some_iff.mp (List.head?_eq_getElem? ▸ hregion)
    rw [layLines, List.head?_eq_getElem?]
    rfl
  | succ k ih =>
    intro ls codes regions level hn hline hcode hregion
    cases ls with
    | nil => cases hline
    | cons l ls =>
      cases codes with
      | nil => cases hcode
      | cons c codes =>
        cases regions with
        | nil => cases hregion
        | cons q regions =>
          obtain ⟨hc, hn⟩ := List.forall_mem_cons.mp hn
          rw [layLines, List.getElem?_cons_succ, ih _ hn hline hcode hregion, nextLevel_eq l hc]
          rfl

/-- The masked copy of a line is scanned from the region in which the line starts. -/
theorem code_of_getElem? {line code : Text} {q : Region} {k : Nat} :
    ∀ {ls : List Text} {r : Region}, ls[k]? = some line → (codeLines r ls)[k]? = some code →
      (lineRegions r ls)[k]? = some q → code = (scan q line).text := by
  induction k with
  | zero =>
    intro ls r hline hcode hregion
    obtain ⟨ls, rfl⟩ := List.head?_eq_some_iff.mp (List.head?_eq_getElem? ▸ hline)
    obtain rfl := Option.some.inj hregion
    exact (Option.some.inj hcode).symm
  | succ k ih =>
    intro ls r hline hcode hregion
    cases ls with
    | nil => cases hline
    | cons l ls => exact ih hline hcode hregion

/-! ## 3. What is behind the indentation -/

/-- Spacing and cutting at the ends take no ink, so nothing is left of a line only if it is
blank. -/
theorem IsBody.ne_nil {l : Text} {e : Bool} {p b q : List Spacing.Cell} (h : IsBody l e p b q)
    (hn : '\n' ∉ l) (hink : ink l ≠ []) : body l (scan .code l).text e ≠ [] := by
  intro hnil
  have hlaid := (h.laid hn 0).ink
  rw [List.replicate_zero, List.nil_append, hnil] at hlaid
  exact hink hlaid.symm

/-- **A line of code is laid out as an indentation and a body**, which starts with no blank, and
ends with none unless a literal goes on behind it.  That something is left for the body is due to
the line being neither blank nor a comment: its code then shows a character that is no blank, and
none of those is cut off. -/
theorem exists_body (dialect : Dialect) (level : Nat) {l : Text} (hn : '\n' ∉ l) (e : Bool)
    (hblank : (LineShape.of l (scan .code l).text).isBlank = false)
    (hcomment : (LineShape.of l (scan .code l).text).isComment = false) :
    let s := LineShape.of l (scan .code l).text
    ∃ b, layLine dialect level s l (scan .code l).text .code e =
        List.replicate (dialect.indentUnit * levelOf dialect s level) ' ' ++ b ∧
      b ≠ [] ∧ (∀ c ∈ b.head?, Text.isBlank c = false) ∧
      (e = false → ∀ c ∈ b.getLast?, Text.isBlank c = false) := by
  intro s
  obtain ⟨-, -, -, hn', -⟩ := chomp_spec hn
  obtain ⟨p, b, q, h⟩ := exists_isBody hn' e
  have hverbatim : isVerbatim s .code = false := hcomment
  refine ⟨body (chomp l) (scan .code l).text e, ?_, ?_, ?_, ?_⟩
  · rw [layLine_eq, hverbatim, hblank]
    rfl
  · rw [body_chomp hn]
    exact h.ne_nil hn' (ink_chomp_ne_nil hn (Bool.eq_false_iff.mp hblank))
  · rw [body_chomp hn, ← h.raw]
    exact h.head
  · rintro rfl
    rw [body_chomp hn, ← h.raw]
    exact h.last

/-- Some code starts with one of the words: no word character follows there. -/
def StartsWithOneOf (words : List Text) (code : Text) : Prop :=
  ∃ w ∈ words, ∃ rest, code = w ++ rest ∧ rest.headIsWord = false

theorem startsWithOneOf_iff (words : List Text) (code : Text) :
    (words.any fun w => (Text.afterStart? w code).any fun rest => !rest.headIsWord) = true ↔
      StartsWithOneOf words code := by
  rw [List.any_eq_true]
  refine exists_congr fun w => and_congr_right fun _ => ?_
  rw [Option.any_eq_true]
  refine exists_congr fun rest => and_congr Text.afterStart?_eq_some_iff ?_
  rw [Bool.not_eq_true']

instance (words : List Text) (code : Text) : Decidable (StartsWithOneOf words code) :=
  decidable_of_iff (words.any fun w => (Text.afterStart? w code).any fun rest => !rest.headIsWord)
    (startsWithOneOf_iff words code)

/-- The level of a line, counted with integers. -/
theorem levelOf_eq (dialect : Dialect) (line code : Text) (level : Nat) :
    (levelOf dialect (.of line code) level : Int) =
      max (0 : Int) (level - ((code.trim.takeWhile LineShape.inLead).count '}' : Nat) -
        if StartsWithOneOf dialect.dedentKeywords code.trim then 1 else 0) := by
  have hword : (LineShape.of line code).startsWithWord dialect.dedentKeywords = true ↔
      StartsWithOneOf dialect.dedentKeywords code.trim := startsWithOneOf_iff _ _
  have hclosers : (LineShape.of line code).leadingClosers =
      (code.trim.takeWhile LineShape.inLead).count '}' := rfl
  rw [levelOf, hclosers]
  by_cases h : StartsWithOneOf dialect.dedentKeywords code.trim
  · rw [if_pos (hword.mpr h), if_pos h]
    omega
  · rw [if_neg (hword.not.mpr h), if_neg h]
    omega

end Layout

open Layout Mask

/-- **A line of code is indented by the reflected height.**  It starts with a blank for each unit of
indentation of its level, which is the reflected height in front of it less the braces that it
closes first, and less one for a dedent keyword, but never below zero.  Behind the indentation
something is left, which does not start with a blank, and does not end with one unless a literal
goes on in the next line.  The width of indentation may be anything; the text is handed out just
when lines have room for it.

The level is kept by a loop over all lines, and each of them cuts it at zero.  The closed form needs
no loop: the surplus closers that were forgotten are how far the height has been below zero
(`levelBehind_take`). -/
theorem format_indents (dialect : Dialect) (t : Text) {k : Nat} {line code : Text}
    (hline : (Document.ofText t).lines[k]? = some line)
    (hcode : (Document.ofText t).codeLines[k]? = some code)
    (hregion : (Document.ofText t).regions[k]? = some .code) (hblank : line.trim ≠ [])
    (hcomment : line.trim.startsWith ['/', '/'] = false ∧
      line.trim.startsWith ['/', '*'] = false) :
    let codes := (Document.ofText t).codeLines
    let closers : Int := (code.trim.takeWhile LineShape.inLead).count '}'
    let dedent : Int := if StartsWithOneOf dialect.dedentKeywords code.trim then 1 else 0
    (format? dialect t = .ok (format dialect t) ↔ hasRoom dialect = true) ∧
      ∃ (n : Nat) (body : Text),
        (format dialect t).lines[k]? = some (List.replicate n ' ' ++ body) ∧
        (n : Int) = max 0 dialect.indentWidth *
          max 0 (height codes k - lowest codes k - closers - dedent) ∧
        body ≠ [] ∧ (∀ c ∈ body.head?, Text.isBlank c = false) ∧
        ((Document.ofText t).regions[k + 1]? ≠ some .string →
          ∀ c ∈ body.getLast?, Text.isBlank c = false) := by
  intro codes closers dedent
  refine ⟨format?_eq_ok_iff dialect t, ?_⟩
  have hone : ∀ code ∈ codes, '\n' ∉ code := Text.no_newline_of_mem_lines _
  have hn : '\n' ∉ line := Text.no_newline_of_mem_lines t line (List.mem_of_getElem? hline)
  have hk : k ≤ codes.length := Nat.le_of_lt (List.getElem?_eq_some_iff.mp hcode).1
  have hlaid := getElem?_layLines dialect 0 hone hline hcode hregion
  have hlevel := levelBehind_take codes hk
  rw [Document.codeLines_ofText] at hcode
  rw [Document.regions_ofText] at hregion
  obtain rfl : code = (scan .code line).text := code_of_getElem? hline hcode hregion
  have hempty : (LineShape.of line (scan .code line).text).isBlank = false := by
    rw [LineShape.isBlank, List.isEmpty_eq_false_iff]
    exact hblank
  have hplain : (LineShape.of line (scan .code line).text).isComment = false := by
    rw [LineShape.isComment, Bool.or_eq_false_iff]
    exact hcomment
  obtain ⟨b, hb, hne, hhead, hlast⟩ := exists_body dialect (levelBehind 0 (codes.take k)) hn
    ((Document.ofText t).regions[k + 1]? == some .string) hempty hplain
  have hlevelOf := levelOf_eq dialect line (scan .code line).text (levelBehind 0 (codes.take k))
  rw [hlevel] at hlevelOf
  refine ⟨dialect.indentUnit * levelOf dialect (.of line (scan .code line).text)
    (levelBehind 0 (codes.take k)), b, ?_, ?_, hne, hhead,
    fun h => hlast (beq_eq_false_iff_ne.mpr h)⟩
  · rw [lines_format, ← Document.codeLines_ofText, ← Document.regions_ofText, ← hb]
    exact hlaid
  · rw [Int.natCast_mul, hlevelOf, Dialect.indentUnit, Int.toNat_eq_max, Int.max_comm]

/-- Two surplus closers in the first line are forgotten: behind two more lines, each of which opens
a block, a line that starts with a dedent keyword is indented by one level, not by none. -/
theorem format_indents_else :
    let t := "\x7d\x7d\n\x7b\n\x7b\nelse x=1 ;".toList
    let line : Text := "else x=1 ;".toList
    let d := Document.ofText t
    d.lines[3]? = some line ∧ d.codeLines[3]? = some line ∧ d.regions[3]? = some .code ∧
      height d.codeLines 3 = 0 ∧ lowest d.codeLines 3 = -2 ∧
      ∃ body, (format .standard t).lines[3]? = some (List.replicate 4 ' ' ++ body) ∧ body ≠ [] ∧
        (∀ c ∈ body.head?, Text.isBlank c = false) ∧
        ∀ c ∈ body.getLast?, Text.isBlank c = false := by
  intro t line d
  have hline : d.lines[3]? = some line := by decide +kernel
  have hcode : d.codeLines[3]? = some line := by decide +kernel
  have hregion : d.regions[3]? = some .code := by decide +kernel
  obtain ⟨-, n, body, hlaid, hn, hne, hhead, hlast⟩ :=
    format_indents .standard t hline hcode hregion (by decide) (by decide)
  have hfour : max 0 Dialect.standard.indentWidth *
      max 0 (height d.codeLines 3 - lowest d.codeLines 3 -
        ((line.trim.takeWhile LineShape.inLead).count '}' : Int) -
        if StartsWithOneOf Dialect.standard.dedentKeywords line.trim
        then 1 else 0) = 4 := by decide +kernel
  obtain rfl : n = 4 := Int.ofNat_inj.mp (hn.trans hfour)
  exact ⟨hline, hcode, hregion, by decide +kernel, by decide +kernel, body, hlaid, hne, hhead,
    hlast (by decide +kernel)⟩

end HypnoScript
