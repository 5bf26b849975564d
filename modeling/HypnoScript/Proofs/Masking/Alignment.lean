/-
# Masking moves nothing

The masked copy has a character at every offset of the text and at no other: the same one or a
space.  Newlines and carriage returns stand at the same offsets in both (`Mask.rel_getElem?_scan`).
So the copy has as many lines as the text, each as long as the line it belongs to, and there is one
region for each of them.

The terminator check and the layout go through lines, masked copies and regions side by side, and
rely on none of them ending before the others.  To say so, both are made a second time here, by a
loop that refuses to go on as soon as one list ends and the other does not, or a region is missing
(`Document.sideBySide?`).  It never refuses, and the results are the same (`Terminator.check?_eq`,
`Layout.laid?_eq`).
-/
import HypnoScript.Layout
import HypnoScript.Proofs.Masking.Lines
import HypnoScript.Analysis

namespace HypnoScript

/-! ## 1. Offsets -/

namespace Mask

/-- A character that is shown is that of the text, or a space. -/
theorem Hides.eq_or_space {c m : Char} (h : Hides c m) : m = c ∨ m = ' ' := h.imp_right And.left

/-- A character that is never hidden is shown exactly where it stands. -/
theorem Hides.eq_iff {c m k : Char} (hk : k = '\n' ∨ k = '\r') (h : Hides c m) :
    m = k ↔ c = k := by
  rcases h with rfl | ⟨rfl, hn, hr⟩
  · exact Iff.rfl
  · refine iff_of_false ?_ ?_
    · rintro rfl
      exact absurd hk (by decide)
    · rintro rfl
      exact hk.elim hn hr

/-- **The masked copy has a character where the text has one**, and shows it or hides it.  So an
offset means the same in both. -/
theorem rel_getElem?_scan (r : Region) (t : Text) (i : Nat) :
    Option.Rel Hides t[i]? (scan r t).text[i]? := by
  have hhides := forall₂_hides_scan r t
  generalize (scan r t).text = m at hhides
  induction hhides generalizing i with
  | nil => exact .none
  | cons hc _ ih =>
    cases i with
    | zero => exact .some hc
    | succ i => exact ih i

/-- At every offset there is the same character, or a space. -/
theorem getElem?_scan (r : Region) (t : Text) (i : Nat) :
    (scan r t).text[i]? = t[i]? ∨ (scan r t).text[i]? = some ' ' := by
  have hrel := rel_getElem?_scan r t i
  generalize t[i]? = c at hrel
  generalize (scan r t).text[i]? = m at hrel
  cases hrel with
  | none => exact Or.inl rfl
  | some h => exact h.eq_or_space.imp (congrArg some) (congrArg some)

/-- Newlines and carriage returns are at the same offsets. -/
theorem getElem?_scan_iff (r : Region) (t : Text) (i : Nat) {k : Char} (hk : k = '\n' ∨ k = '\r') :
    (scan r t).text[i]? = some k ↔ t[i]? = some k := by
  have hrel := rel_getElem?_scan r t i
  generalize t[i]? = c at hrel
  generalize (scan r t).text[i]? = m at hrel
  cases hrel with
  | none => exact Iff.rfl
  | some h => rw [Option.some_inj, Option.some_inj, h.eq_iff hk]

end Mask

/-! ## 2. Lines, masked copies and regions side by side -/

namespace Document

/-- Why lines, masked copies and regions could not be gone through side by side. -/
inductive Misfit where
  /-- There is a line without a masked copy. -/
  | noCopy
  /-- There is a masked copy without a line. -/
  | noLine
  /-- There is no region for a line. -/
  | noRegion (line : Nat)
  deriving DecidableEq, Repr

/-- Goes through lines and masked copies side by side, from line number `n` on, and takes a step for
each pair.  It refuses if one list ends before the other. -/
def sideBySide? {σ : Type} (step : Nat → Text → Text → σ → Except Misfit σ) :
    (n : Nat) → (lines codes : List Text) → σ → Except Misfit σ
  | _, [], [], s => .ok s
  | n, line :: lines, code :: codes, s =>
    (step n line code s).bind fun s => sideBySide? step (n + 1) lines codes s
  | _, _ :: _, [], _ => .error .noCopy
  | _, [], _ :: _, _ => .error .noLine

theorem sideBySide?_cons {σ : Type} {step : Nat → Text → Text → σ → Except Misfit σ} {n : Nat}
    {line code : Text} {lines codes : List Text} {s s' : σ} (h : step n line code s = .ok s') :
    sideBySide? step n (line :: lines) (code :: codes) s =
      sideBySide? step (n + 1) lines codes s' := by
  rw [sideBySide?, h]
  rfl

end Document

open Document (Misfit sideBySide? sideBySide?_cons)

/-! ## 3. The terminator check -/

namespace Terminator

variable (dialect : Dialect) (w : Wording) (d : Document)

/-- The diagnostic about a line that lacks its terminator. -/
def diagnosticAt (n : Nat) : Diagnostic :=
  { range := d.endOfLine n
    message := w .missingTerminator
    severity := .warning
    rule := some .missingTerminator }

/-- One line more is checked. -/
def step (n : Nat) (line code : Text) (found : List Diagnostic) :
    Except Misfit (List Diagnostic) :=
  .ok (if isMissing dialect (LineShape.of line code) then found ++ [diagnosticAt w d n] else found)

/-- The terminator check, with checks of its own that lines and masked copies go together. -/
def check? : Except Misfit (List Diagnostic) :=
  sideBySide? (step dialect w d) 0 d.lines d.codeLines []

theorem sideBySide?_step {lines codes : List Text} (hlength : codes.length = lines.length)
    (n : Nat) (found : List Diagnostic) :
    sideBySide? (step dialect w d) n lines codes found =
      .ok (found ++ (missingFrom dialect n lines codes).map (diagnosticAt w d)) := by
  induction lines generalizing codes n found with
  | nil =>
    obtain rfl := List.eq_nil_of_length_eq_zero hlength
    simp [sideBySide?, missingFrom]
  | cons line lines ih =>
    obtain ⟨code, codes, rfl⟩ := List.exists_cons_of_length_eq_add_one hlength
    rw [sideBySide?_cons (rfl : step dialect w d n line code found = .ok _),
      ih (Nat.succ.inj hlength), missingFrom]
    split <;> simp

/-- **The terminator check goes through.**  There is a masked copy for each line, so neither list
ends before the other one. -/
theorem check?_eq (t : Text) :
    check? dialect w (.ofText t) = .ok (check dialect w (.ofText t)) := by
  rw [check?, sideBySide?_step dialect w _ (Document.length_codeLines t), List.nil_append]
  rfl

end Terminator

/-! ## 4. The layout -/

namespace Layout

variable (dialect : Dialect)

/-- One line more is laid out, given the number of blocks that are open in front of it and the lines
laid out so far. -/
def step (regions : List Region) (n : Nat) (line code : Text) :
    Nat × List Text → Except Misfit (Nat × List Text)
  | (level, out) =>
    regions[n]?.elim (.error (.noRegion n)) fun r =>
      let s := LineShape.of line code
      .ok (nextLevel s level,
        out ++ [layLine dialect level s line code r (regions[n + 1]? == some .string)])

/-- The text laid out, with checks that lines, masked copies and regions go together. -/
def laid? (t : Text) : Except Misfit Text :=
  let d := Document.ofText t
  (sideBySide? (step dialect d.regions) 0 d.lines d.codeLines (0, [])).map fun s =>
    Text.joinLines s.2

theorem sideBySide?_step {regions : List Region} {lines codes : List Text} {n : Nat}
    (hcodes : codes.length = lines.length) (hregions : n + lines.length ≤ regions.length)
    (level : Nat) (out : List Text) :
    ∃ level', sideBySide? (step dialect regions) n lines codes (level, out) =
      .ok (level', out ++ layLines dialect level lines codes (regions.drop n)) := by
  induction lines generalizing codes n level out with
  | nil =>
    obtain rfl := List.eq_nil_of_length_eq_zero hcodes
    exact ⟨level, by simp [sideBySide?, layLines]⟩
  | cons line lines ih =>
    obtain ⟨code, codes, rfl⟩ := List.exists_cons_of_length_eq_add_one hcodes
    rw [List.length_cons] at hregions
    have hn : n < regions.length := by omega
    have hstep : step dialect regions n line code (level, out) =
        .ok (nextLevel (.of line code) level,
          out ++ [layLine dialect level (.of line code) line code regions[n]
            (regions[n + 1]? == some .string)]) := by
      rw [step, List.getElem?_eq_getElem hn]
      rfl
    obtain ⟨level', h⟩ := ih (Nat.succ.inj hcodes) (n := n + 1) (by omega)
      (nextLevel (.of line code) level) _
    refine ⟨level', ?_⟩
    rw [sideBySide?_cons hstep, h, List.drop_eq_getElem_cons hn, layLines, List.head?_drop,
      List.append_assoc]
    rfl

/-- **The layout goes through.**  There is a masked copy and a region for each line; and where the
loop looks for the region behind the last line it takes none for an answer. -/
theorem laid?_eq (t : Text) : laid? dialect t = .ok (format dialect t) := by
  have hregions : 0 + (Document.ofText t).lines.length ≤ (Document.ofText t).regions.length := by
    rw [Document.length_regions, Nat.zero_add]
    exact Nat.le_refl _
  obtain ⟨level, h⟩ := sideBySide?_step dialect (Document.length_codeLines t) hregions 0 []
  rw [laid?, h]
  rfl

end Layout

/-- **Masking moves nothing.**  The masked copy is as long as the text, and at every offset it has
the same character or a space, newlines and carriage returns at the same offsets.  Lines, masked
copies and regions are equally many, and each line is as long as its masked copy.  So going through
them side by side never fails, neither in the terminator check nor in the layout.

The scan skips the second character of a mark or an escape, and could lose a newline that way.  It
does not, as no newline is the second one of either; all the rest follows from the lines of text and
copy being cut at the same offsets. -/
theorem masked_aligned (t : Text) :
    let d := Document.ofText t
    ((masked t).length = t.length ∧
      ∀ i : Nat, ((masked t)[i]? = t[i]? ∨ (masked t)[i]? = some ' ') ∧
        ((masked t)[i]? = some '\n' ↔ t[i]? = some '\n') ∧
        ((masked t)[i]? = some '\r' ↔ t[i]? = some '\r')) ∧
    (d.regions.length = d.lines.length ∧ d.codeLines.length = d.lines.length ∧
      d.codeLines.map List.length = d.lines.map List.length) ∧
    (∀ dialect w, Terminator.check? dialect w d = .ok (Terminator.check dialect w d)) ∧
    ∀ dialect, Layout.laid? dialect t = .ok (format dialect t) := by
  intro d
  have hlengths : d.codeLines.map List.length = d.lines.map List.length := by
    rw [Document.codeLines_ofText, Mask.map_length_codeLines]
    rfl
  refine ⟨⟨Mask.length_scan .code t, ?_⟩, ?_, ?_, ?_⟩
  · intro i
    exact ⟨Mask.getElem?_scan .code t i, Mask.getElem?_scan_iff .code t i (Or.inl rfl),
      Mask.getElem?_scan_iff .code t i (Or.inr rfl)⟩
  · exact ⟨Document.length_regions t, Document.length_codeLines t, hlengths⟩
  · intro dialect w
    exact Terminator.check?_eq dialect w t
  · intro dialect
    exact Layout.laid?_eq dialect t

end HypnoScript
