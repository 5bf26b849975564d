/-
# Fixing a document is rewriting its lines

What `fixDocument` does can be said from the outside, by the diagnostics of the text alone: the
lines that are reported to lack their terminator get it behind their last code
(`QuickFix.rewrittenLines`), in front of them stands the opening wrapper if it is reported to be
missing, and behind them the closing one (`fixDocument_rewrites`).  Neither edits nor offsets are
left in this.
-/
import HypnoScript.Proofs.QuickFix.Document

namespace HypnoScript

open Text (joinLines)

/-! ## 1. Reported lines -/

/-- Line by line, those that lack their terminator are found. -/
theorem Terminator.add_mem_missingFrom_iff {dialect : Dialect} {n i : Nat} {ls cs : List Text}
    {l c : Text} (hl : ls[i]? = some l) (hc : cs[i]? = some c) :
    n + i ∈ missingFrom dialect n ls cs ↔ isMissing dialect (LineShape.of l c) = true := by
  induction ls generalizing n i cs with
  | nil => simp at hl
  | cons l' ls ih =>
    cases cs with
    | nil => simp at hc
    | cons c' cs =>
      rw [missingFrom]
      cases i with
      | zero =>
        obtain rfl : l' = l := by simpa using hl
        obtain rfl : c' = c := by simpa using hc
        have hrest : n ∉ missingFrom dialect (n + 1) ls cs :=
          fun h => absurd (mem_missingFrom h).1 (Nat.not_succ_le_self n)
        split <;> simp [*]
      | succ i =>
        have ih := ih (n := n + 1) (by simpa using hl) (by simpa using hc)
        rw [Nat.add_assoc, Nat.add_comm 1] at ih
        split <;> simp [ih]

namespace QuickFix

/-- Whether some diagnostics report that a line lacks its terminator. -/
def reportsLine (gs : List Diagnostic) (n : Nat) : Bool :=
  gs.any fun g => g.rule == some .missingTerminator && g.range.start.line == n

/-- Whether some diagnostics report that a rule is broken. -/
def reports (gs : List Diagnostic) (rule : Rule) : Bool := gs.any (·.rule == some rule)

/-- A line, given with its masked copy, with a text put in behind its last code. -/
def putBehindCode (new line code : Text) : Text :=
  line.take code.trimRight.length ++ new ++ line.drop code.trimRight.length

/-- The lines of a document, with the terminator put in on those that are reported to lack it. -/
def rewrittenLines (dialect : Dialect) (gs : List Diagnostic) (d : Document) : List Text :=
  d.lines.mapIdx fun n line =>
    if reportsLine gs n then putBehindCode dialect.terminator line (d.codeLines.getD n [])
    else line

/-- **The lines that are reported are those that lack their terminator.**  Other checks report by
other rules, and the terminator check reports each line by its own number. -/
theorem reportsLine_analyze (dialect : Dialect) (w : Wording) {t : Text} {n : Nat} {l c : Text}
    (hl : (Document.ofText t).lines[n]? = some l)
    (hc : (Document.ofText t).codeLines[n]? = some c) :
    reportsLine (analyze dialect w t) n = Terminator.isMissing dialect (LineShape.of l c) := by
  have hmem : 0 + n ∈ Terminator.missingLines dialect (.ofText t) ↔ _ :=
    Terminator.add_mem_missingFrom_iff hl hc
  rw [Nat.zero_add] at hmem
  rw [Bool.eq_iff_iff, ← hmem, reportsLine, List.any_eq_true]
  constructor
  · rintro ⟨g, hg, hreport⟩
    rw [Bool.and_eq_true, beq_iff_eq, beq_iff_eq] at hreport
    obtain ⟨m, hm, rfl⟩ := List.mem_map.mp (Terminator.mem_check_iff.mpr ⟨hg, hreport.1⟩)
    obtain rfl : m = n := hreport.2
    exact hm
  · intro hn
    have hcheck : _ ∈ Terminator.check dialect w _ := List.mem_map_of_mem hn
    have hg := Terminator.mem_check_iff.mp hcheck
    exact ⟨_, hg.1, by rw [Bool.and_eq_true, beq_iff_eq]; exact ⟨hg.2, beq_self_eq_true n⟩⟩

/-- **The lines with their terminators are those that the diagnostics ask for.** -/
theorem zipWith_withTerminator (dialect : Dialect) (w : Wording) (t : Text) :
    let d := Document.ofText t
    List.zipWith (withTerminator dialect) d.lines d.codeLines =
      rewrittenLines dialect (analyze dialect w t) d := by
  intro d
  have hlength : d.codeLines.length = d.lines.length := Document.length_codeLines t
  refine List.ext_getElem (by simp [rewrittenLines, hlength]) fun n hn hn' => ?_
  have hl : n < d.lines.length := by simpa [rewrittenLines] using hn'
  have hreport := reportsLine_analyze dialect w (t := t) (List.getElem?_eq_getElem hl)
    (List.getElem?_eq_getElem (hlength ▸ hl))
  rw [List.getElem_zipWith, withTerminator, ← hreport]
  simp [rewrittenLines, putBehindCode, hlength, hl]

/-! ## 2. The wrapper that is put around the text -/

/-- What is put in front of the text, by its diagnostics. -/
theorem openingParts_reports (dialect : Dialect) (w : Wording) (t : Text) :
    Edit.target (openingParts dialect (.ofText t)) =
      if reports (analyze dialect w t) .noOpenWrapper then
        dialect.openWrapper ++ " \x7b\n".toList
      else [] := by
  have hopen : reports (analyze dialect w t) .noOpenWrapper =
      lacks dialect.openWrapper (.ofText t) :=
    (any_rule_diagnostics dialect w t).1
  rw [hopen, openingParts]
  split <;> simp [openingEdit, Edit.insertAt]

/-- What is put behind the text, by its diagnostics. -/
theorem closingParts_reports (dialect : Dialect) (w : Wording) (t : Text) :
    Edit.target (closingParts dialect (.ofText t)) =
      if reports (analyze dialect w t) .noCloseWrapper then
        (if t.lines.getLast? = some [] then [] else ['\n']) ++ "\x7d ".toList ++
          dialect.closeWrapper ++ ['\n']
      else [] := by
  have hclose : reports (analyze dialect w t) .noCloseWrapper =
      lacks dialect.closeWrapper (.ofText t) := (any_rule_diagnostics dialect w t).2
  rw [hclose, closingParts]
  split
  · simp [closingEdit, Edit.insertAt, Document.lineLength_lastLine_eq_zero_iff]
  · rfl

end QuickFix

/-! ## 3. Rewriting -/

open QuickFix (reports rewrittenLines)

/-- **Fixing a document never fails, and is a rewriting line by line.**  The lines that are reported
get their terminator behind their last code, and around them stands what is reported to be missing
of the wrapper.  That the edits come to this whatever order they are in is `fixDocument_eq`; here
only the diagnostics are left to go by. -/
theorem fixDocument_rewrites (dialect : Dialect) (w : Wording) (t : Text) :
    let gs := analyze dialect w t
    fixDocument dialect w t = .ok (
      (if reports gs .noOpenWrapper then dialect.openWrapper ++ " \x7b\n".toList else []) ++
      joinLines (rewrittenLines dialect gs (.ofText t)) ++
      (if reports gs .noCloseWrapper then
        (if t.lines.getLast? = some [] then [] else ['\n']) ++ "\x7d ".toList ++
          dialect.closeWrapper ++ ['\n']
      else [])) := by
  intro gs
  rw [fixDocument_eq, QuickFix.zipWith_withTerminator dialect w t,
    QuickFix.openingParts_reports dialect w t, QuickFix.closingParts_reports dialect w t]
  exact congrArg Except.ok (List.append_assoc ..).symm

end HypnoScript
