/-
# What fixing a document comes to

`fixDocument` goes from diagnostics to fixes, from fixes to edits and from edits to splices, which
are sorted and made from the last to the first.  None of these steps fails, as every diagnostic is
about lines that the document has, and together they come to a rewriting line by line: every line
that lacks its terminator gets it behind its last code (`QuickFix.withTerminator`), and what is
missing of the wrapper is put around the lines.

* `QuickFix.preferredEdits_forText`: the preferred fixes are a terminator for each of the missing
  ones, and the wrapper.
* `fixDocument_eq`: their splices are those of a script (`QuickFix.bodyParts`), so fixing a document
  is carrying the script out.
-/
import HypnoScript.QuickFix
import HypnoScript.Proofs.Analysis.Ranges
import HypnoScript.Proofs.QuickFix.Script

namespace HypnoScript

open Text (joinLines)

/-! ## 1. Where lines start -/

namespace Document

section Lines

variable {d : Document} {ls rest : List Text} {l : Text} {n : Nat}

theorem lt_of_drop (h : ls.drop n = l :: rest) : n < ls.length := by
  rw [← Nat.not_le, ← List.drop_eq_nil_iff, h]
  exact List.cons_ne_nil _ _

theorem getD_of_drop (h : ls.drop n = l :: rest) : ls.getD n [] = l := by
  rw [List.getD_eq_getElem?_getD, ← List.head?_drop, h]
  rfl

/-- The offset of a place on a line. -/
theorem offsetAt_of_drop (h : d.lines.drop n = l :: rest) {k : Nat} (hk : k ≤ l.length) :
    d.offsetAt ⟨n, k⟩ = d.lineStart n + k := by
  have hn := lt_of_drop h
  simp only [offsetAt, lastLine, lineCount, lineLength]
  rw [Nat.min_eq_left (by omega), getD_of_drop h, Nat.min_eq_left hk]

end Lines

theorem lineStartIn_succ {ls rest : List Text} {l : Text} {n : Nat} (h : ls.drop n = l :: rest) :
    lineStartIn ls (n + 1) = lineStartIn ls n + (l.length + 1) := by
  induction ls generalizing n with
  | nil => simp at h
  | cons l' ls ih =>
    cases n with
    | zero =>
      obtain ⟨rfl, -⟩ := List.cons.inj h
      simp [lineStartIn]
    | succ n =>
      have := ih (n := n) h
      simp only [lineStartIn, List.take_succ_cons, List.foldr_cons] at *
      omega

/-- The end of the last line is the end of the text. -/
theorem end_of_last_line {ls : List Text} (h : ls ≠ []) :
    lineStartIn ls (ls.length - 1) + (ls.getD (ls.length - 1) []).length =
      (joinLines ls).length := by
  induction ls with
  | nil => exact absurd rfl h
  | cons l ls ih =>
    cases ls with
    | nil => simp [lineStartIn, joinLines]
    | cons l' ls =>
      have := ih (List.cons_ne_nil _ _)
      rw [Text.joinLines_cons l (List.cons_ne_nil _ _)]
      simp only [lineStartIn, List.length_cons, Nat.add_sub_cancel, List.take_succ_cons,
        List.foldr_cons, List.getD_cons_succ, List.length_append] at *
      omega

/-- The last line is empty when its length is zero. -/
theorem lineLength_lastLine_eq_zero_iff (t : Text) :
    (ofText t).lineLength (ofText t).lastLine = 0 ↔
      t.lines.getLast? = some [] := by
  have hlast : t.lines.length - 1 < t.lines.length :=
    Nat.sub_lt (lineCount_pos t) Nat.one_pos
  change (t.lines.getD (t.lines.length - 1) []).length = 0 ↔ _
  rw [List.length_eq_zero_iff, List.getLast?_eq_getElem?, List.getD_eq_getElem?_getD,
    List.getElem?_eq_getElem hlast, Option.getD_some, Option.some.injEq]

end Document

/-! ## 2. Which diagnostics there are -/

/-- No line is reported when none lacks its terminator. -/
theorem Terminator.missingFrom_eq_nil_iff {dialect : Dialect} {n : Nat} {ls cs : List Text} :
    missingFrom dialect n ls cs = [] ↔
      ∀ p ∈ ls.zip cs, isMissing dialect (LineShape.of p.1 p.2) = false := by
  induction ls generalizing n cs with
  | nil => simp [missingFrom]
  | cons l ls ih =>
    cases cs with
    | nil => simp [missingFrom]
    | cons c cs =>
      rw [missingFrom, List.zip_cons_cons, List.forall_mem_cons, ← ih (n := n + 1)]
      split <;> simp [*]

/-- The wrapper check reports a word as missing when it does not find it. -/
theorem Wrapper.any_rule_check (dialect : Dialect) (w : Wording) (d : Document) :
    (check dialect w d).any (·.rule == some .noOpenWrapper) =
        (Text.wordOffsets dialect.openWrapper d.code).isEmpty ∧
      (check dialect w d).any (·.rule == some .noCloseWrapper) =
        (Text.wordOffsets dialect.closeWrapper d.code).isEmpty := by
  rw [check]
  generalize Text.wordOffsets dialect.openWrapper d.code = opens
  generalize Text.wordOffsets dialect.closeWrapper d.code = closes
  cases opens <;> cases closes <;> simp [report]

/-- The diagnostics about terminators are those of the terminator check. -/
theorem Terminator.mem_check_iff {dialect : Dialect} {w : Wording} {t : Text} {g : Diagnostic} :
    g ∈ check dialect w (.ofText t) ↔
      g ∈ analyze dialect w t ∧ g.rule = some .missingTerminator := by
  rw [mem_analyze_iff]
  exact ⟨fun h => ⟨h, (mem_check h).1⟩, And.left⟩

/-! ## 3. The preferred fixes of a document -/

namespace QuickFix

/-- The edits of the preferred ones among some fixes. -/
def preferredEdits (fixes : List QuickFix) : List Edit :=
  (fixes.filter (·.preferred)).flatMap (·.edits)

theorem preferredEdits_append (fs gs : List QuickFix) :
    preferredEdits (fs ++ gs) = preferredEdits fs ++ preferredEdits gs := by
  simp [preferredEdits]

/-- The edit that puts a terminator in on a line. -/
def terminatorEdit (dialect : Dialect) (d : Document) (n : Nat) : Edit :=
  Edit.insertAt ⟨n, (d.codeLines.getD n []).trimRight.length⟩ dialect.terminator

theorem lineOf_eq_ok {ls : List Text} {n : Nat} (h : n < ls.length) :
    lineOf ls n = .ok (ls.getD n []) := by
  simp [lineOf, List.getD_eq_getElem?_getD, h]

theorem addTerminator_eq_ok {t : Text} {g : Diagnostic} (dialect : Dialect) (w : Wording)
    (h : (Document.ofText t).HasLines g.range) :
    addTerminator dialect w (.ofText t) g =
      .ok { title := w .addTerminator
            rule := .missingTerminator
            edits := [terminatorEdit dialect (.ofText t) g.range.stop.line]
            preferred := true } := by
  have hline : g.range.stop.line < (Document.ofText t).codeLines.length := by
    rw [Document.length_codeLines]
    exact h.2
  rw [addTerminator, lineOf_eq_ok hline]
  rfl

/-- A line with its newline, or the last line without one. -/
def lineSpan (d : Document) (n : Nat) : Span :=
  if n + 1 < d.lineCount then Span.ofLines n 1 0 else Span.onLine n 0 (d.lineLength n)

theorem wholeLine_eq_ok (d : Document) {n : Nat} (h : n < d.lineCount) :
    wholeLine d n = .ok (lineSpan d n) := by
  unfold wholeLine lineSpan
  split
  · rfl
  · rw [lineOf_eq_ok h]
    rfl

theorem removeLine_eq_ok (w : Wording) {d : Document} {g : Diagnostic}
    (h : g.range.start.line < d.lineCount) :
    removeLine w d g = .ok { title := w .removeUnused
                             rule := .unusedVariable
                             edits := [⟨lineSpan d g.range.start.line, []⟩] } := by
  rw [removeLine, wholeLine_eq_ok d h]
  rfl

/-- The fix for a diagnostic about lines that there are. -/
def fixesFor (dialect : Dialect) (w : Wording) (d : Document) (g : Diagnostic) : List QuickFix :=
  match g.rule with
  | some .missingTerminator =>
    [{ title := w .addTerminator
       rule := .missingTerminator
       edits := [terminatorEdit dialect d g.range.stop.line]
       preferred := true }]
  | some .unusedVariable =>
    [{ title := w .removeUnused
       rule := .unusedVariable
       edits := [⟨lineSpan d g.range.start.line, []⟩] }]
  | some .duplicateOpenWrapper => [removeSpan w .duplicateOpenWrapper g]
  | some .duplicateCloseWrapper => [removeSpan w .duplicateCloseWrapper g]
  | _ => []

/-- **A diagnostic about lines that there are can be fixed.**  A fix looks up the line of its
diagnostic, and nothing else can go wrong. -/
theorem ofDiagnostic_eq_ok {t : Text} {g : Diagnostic} (dialect : Dialect) (w : Wording)
    (h : (Document.ofText t).HasLines g.range) :
    ofDiagnostic dialect w (.ofText t) g = .ok (fixesFor dialect w (.ofText t) g) := by
  have hterminator := addTerminator_eq_ok dialect w h
  have hline := removeLine_eq_ok w h.1
  unfold ofDiagnostic fixesFor
  rcases g.rule with _ | rule
  · rfl
  · cases rule with
    | missingTerminator =>
      simp only [hterminator]
      rfl
    | unusedVariable =>
      simp only [hline]
      rfl
    | _ => rfl

/-- **The fixes for diagnostics about lines that there are**: one after the other, and then the
missing wrapper. -/
theorem forText_eq_ok {t : Text} {gs : List Diagnostic} (dialect : Dialect) (w : Wording)
    (h : ∀ g ∈ gs, (Document.ofText t).HasLines g.range) :
    forText dialect w t gs = .ok (gs.flatMap (fixesFor dialect w (.ofText t)) ++
      if gs.any (·.rule == some .noOpenWrapper) || gs.any (·.rule == some .noCloseWrapper) then
        [addWrapper dialect w (.ofText t) (gs.any (·.rule == some .noOpenWrapper))
          (gs.any (·.rule == some .noCloseWrapper))]
      else []) := by
  have hmapM : gs.mapM (ofDiagnostic dialect w (.ofText t)) =
      .ok (gs.map (fixesFor dialect w (.ofText t))) := by
    induction gs with
    | nil => rfl
    | cons g gs ih =>
      obtain ⟨hg, hgs⟩ := List.forall_mem_cons.mp h
      rw [List.mapM_cons, ofDiagnostic_eq_ok dialect w hg, ih hgs]
      rfl
  rw [forText, forDocument, hmapM, List.flatMap_def]
  rfl

/-- The preferred edits for one diagnostic. -/
def editsFor (dialect : Dialect) (d : Document) (g : Diagnostic) : List Edit :=
  if g.rule = some .missingTerminator then [terminatorEdit dialect d g.range.stop.line] else []

/-- Of the fixes for a diagnostic, only that for a terminator is preferred. -/
theorem preferredEdits_fixesFor (dialect : Dialect) (w : Wording) (d : Document) (g : Diagnostic) :
    preferredEdits (fixesFor dialect w d g) = editsFor dialect d g := by
  unfold fixesFor editsFor
  split
  case h_1 hrule =>
    rw [if_pos hrule]
    rfl
  case h_2 hrule | h_3 hrule | h_4 hrule =>
    rw [if_neg (by simp [hrule])]
    rfl
  case h_5 hrule _ _ _ =>
    rw [if_neg hrule]
    rfl

theorem preferredEdits_flatMap (f : Diagnostic → List QuickFix) (gs : List Diagnostic) :
    preferredEdits (gs.flatMap f) = gs.flatMap fun g => preferredEdits (f g) := by
  induction gs with
  | nil => rfl
  | cons g gs ih =>
    rw [List.flatMap_cons, preferredEdits_append, ih, List.flatMap_cons]

/-- Whether the word that opens or closes the program is missing. -/
def lacks (word : Text) (d : Document) : Bool := (Text.wordOffsets word d.code).isEmpty

/-- Of the diagnostics, only those about terminators have preferred edits of their own. -/
theorem flatMap_editsFor (dialect : Dialect) (w : Wording) (t : Text) :
    ((Document.ofText t).diagnostics dialect w).flatMap (editsFor dialect (.ofText t)) =
      (Terminator.missingLines dialect (.ofText t)).map (terminatorEdit dialect (.ofText t)) := by
  have hnone : ∀ {gs : List Diagnostic}, (∀ g ∈ gs, g.rule ≠ some .missingTerminator) →
      gs.flatMap (editsFor dialect (.ofText t)) = [] := by
    intro gs h
    exact List.flatMap_eq_nil_iff.mpr fun g hg => if_neg (h g hg)
  have hterminators : (Terminator.check dialect w (.ofText t)).flatMap
      (editsFor dialect (.ofText t)) =
        (Terminator.missingLines dialect (.ofText t)).map (terminatorEdit dialect (.ofText t)) := by
    rw [Terminator.check, List.flatMap_map]
    exact List.map_eq_flatMap.symm
  rw [Document.diagnostics, List.flatMap_append, List.flatMap_append, List.flatMap_append,
    hnone fun g hg => (Wrapper.mem_check hg).1.1,
    hnone fun g hg => by rw [(Bracket.mem_check hg).1]; decide, hterminators,
    hnone fun g hg => by rw [(Declaration.mem_check hg).1]; decide,
    List.nil_append, List.nil_append, List.append_nil]

/-- Which diagnostics there are tells which word of the wrapper is missing. -/
theorem any_rule_diagnostics (dialect : Dialect) (w : Wording) (t : Text) :
    ((Document.ofText t).diagnostics dialect w).any (·.rule == some .noOpenWrapper) =
        lacks dialect.openWrapper (.ofText t) ∧
      ((Document.ofText t).diagnostics dialect w).any (·.rule == some .noCloseWrapper) =
        lacks dialect.closeWrapper (.ofText t) := by
  have hothers : ∀ r : Rule, r ≠ .unbalancedBracket → r ≠ .missingTerminator → r ≠ .unusedVariable →
      ((Document.ofText t).diagnostics dialect w).any (·.rule == some r) =
        (Wrapper.check dialect w (.ofText t)).any (·.rule == some r) := by
    intro r hbracket hterminator hdeclaration
    have hnone : ∀ {gs : List Diagnostic} {q : Rule}, r ≠ q → (∀ g ∈ gs, g.rule = some q) →
        gs.any (·.rule == some r) = false := by
      intro gs q hne h
      rw [List.any_eq_false]
      intro g hg
      simpa [h g hg] using hne.symm
    rw [Document.diagnostics, List.any_append, List.any_append, List.any_append,
      hnone hbracket fun g hg => (Bracket.mem_check hg).1,
      hnone hterminator fun g hg => (Terminator.mem_check hg).1,
      hnone hdeclaration fun g hg => (Declaration.mem_check hg).1, Bool.or_false, Bool.or_false,
      Bool.or_false]
  rw [hothers _ (by decide) (by decide) (by decide), hothers _ (by decide) (by decide) (by decide)]
  exact Wrapper.any_rule_check ..

/-- What is put in front of the text. -/
def openingParts (dialect : Dialect) (d : Document) : List Edit.Part :=
  if lacks dialect.openWrapper d then [.put (openingEdit dialect).newText] else []

/-- What is put behind the text. -/
def closingParts (dialect : Dialect) (d : Document) : List Edit.Part :=
  if lacks dialect.closeWrapper d then [.put (closingEdit dialect d).newText] else []

/-- **The preferred edits of a text**: a terminator for each line that lacks one, and the missing
parts of the wrapper.  All other fixes take something out, and are never preferred. -/
theorem preferredEdits_forText (dialect : Dialect) (w : Wording) (t : Text) :
    ∃ fixes, forText dialect w t (analyze dialect w t) = .ok fixes ∧
      preferredEdits fixes =
        (Terminator.missingLines dialect (.ofText t)).map (terminatorEdit dialect (.ofText t)) ++
          ((if lacks dialect.openWrapper (.ofText t) then [openingEdit dialect] else []) ++
            if lacks dialect.closeWrapper (.ofText t) then [closingEdit dialect (.ofText t)]
            else []) := by
  have hlines : ∀ g ∈ analyze dialect w t, (Document.ofText t).HasLines g.range :=
    fun g hg => Document.hasLines_of_mem_diagnostics hg
  have hopening := (any_rule_diagnostics dialect w t).1
  have hclosing := (any_rule_diagnostics dialect w t).2
  rw [← analyze] at hopening hclosing
  refine ⟨_, forText_eq_ok dialect w hlines, ?_⟩
  rw [hopening, hclosing, preferredEdits_append, preferredEdits_flatMap,
    funext (preferredEdits_fixesFor dialect w (.ofText t)), analyze, flatMap_editsFor]
  congr 1
  cases lacks dialect.openWrapper (.ofText t) <;> cases lacks dialect.closeWrapper (.ofText t) <;>
    rfl

/-! ## 4. Lines with their terminators -/

/-- A line, given with its masked copy, behind whose last code the terminator has been put if it
lacks one. -/
def withTerminator (dialect : Dialect) (line code : Text) : Text :=
  if Terminator.isMissing dialect (LineShape.of line code) then
    line.take code.trimRight.length ++ dialect.terminator ++ line.drop code.trimRight.length
  else line

/-- The script for a line. -/
def lineParts (dialect : Dialect) (line code : Text) : List Edit.Part :=
  if Terminator.isMissing dialect (LineShape.of line code) then
    [.keep (line.take code.trimRight.length), .put dialect.terminator,
      .keep (line.drop code.trimRight.length)]
  else [.keep line]

/-- The script for some lines. -/
def bodyParts (dialect : Dialect) : List Text → List Text → List Edit.Part
  | l :: ls, c :: cs =>
    lineParts dialect l c ++ if ls = [] then [] else .keep ['\n'] :: bodyParts dialect ls cs
  | _, _ => []

/-- The script for a document. -/
def parts (dialect : Dialect) (d : Document) : List Edit.Part :=
  openingParts dialect d ++ (bodyParts dialect d.lines d.codeLines ++ closingParts dialect d)

theorem source_lineParts (dialect : Dialect) (l c : Text) :
    Edit.source (lineParts dialect l c) = l := by
  unfold lineParts
  split <;> simp

theorem target_lineParts (dialect : Dialect) (l c : Text) :
    Edit.target (lineParts dialect l c) = withTerminator dialect l c := by
  unfold lineParts withTerminator
  split <;> simp

theorem source_bodyParts (dialect : Dialect) {ls cs : List Text} (h : ls.length = cs.length) :
    Edit.source (bodyParts dialect ls cs) = joinLines ls := by
  induction ls generalizing cs with
  | nil => rfl
  | cons l ls ih =>
    obtain ⟨c, cs, rfl⟩ := List.exists_cons_of_length_eq_add_one h.symm
    have ih := ih (Nat.succ.inj h)
    rw [bodyParts, Edit.source_append, source_lineParts]
    split
    · simp [joinLines, ‹ls = []›]
    · rw [Edit.source_keep, ih, Text.joinLines_cons l ‹ls ≠ []›]
      rfl

theorem target_bodyParts (dialect : Dialect) {ls cs : List Text} (h : ls.length = cs.length) :
    Edit.target (bodyParts dialect ls cs) =
      joinLines (List.zipWith (withTerminator dialect) ls cs) := by
  induction ls generalizing cs with
  | nil => rfl
  | cons l ls ih =>
    obtain ⟨c, cs, rfl⟩ := List.exists_cons_of_length_eq_add_one h.symm
    have ih := ih (Nat.succ.inj h)
    rw [bodyParts, Edit.target_append, target_lineParts, List.zipWith_cons_cons]
    split
    · simp [joinLines, ‹ls = []›]
    · have hne : List.zipWith (withTerminator dialect) ls cs ≠ [] := by
        rintro he
        rcases List.zipWith_eq_nil_iff.mp he with he | rfl
        · exact ‹ls ≠ []› he
        · exact ‹ls ≠ []› (List.length_eq_zero_iff.mp (Nat.succ.inj h))
      rw [Edit.target_keep, ih, Text.joinLines_cons _ hne]
      rfl

/-! ## 5. The splices of the script -/

/-- A line that lacks its terminator has code on it. -/
theorem trimRight_ne_nil_of_isMissing {dialect : Dialect} {l c : Text}
    (h : Terminator.isMissing dialect (LineShape.of l c)) : c.trimRight ≠ [] := by
  intro hc
  have hall : ∀ x ∈ c, Text.isBlank x = true := by
    obtain ⟨s, hs, hblank, -⟩ := Text.dropTrailing_spec Text.isBlank c
    rw [show Text.dropTrailing Text.isBlank c = [] from hc, List.nil_append] at hs
    exact hs ▸ hblank
  have hcode : (LineShape.of l c).code = [] := by
    have hleft := Text.trimLeft_append hall []
    rw [List.append_nil] at hleft
    change Text.trim c = []
    rw [Text.trim, hleft]
    rfl
  simp [Terminator.isMissing, hcode] at h

/-- Where the edit for a terminator puts it. -/
theorem splice_terminatorEdit (dialect : Dialect) {d : Document} {n : Nat} {l c : Text}
    {ls cs : List Text} (hl : d.lines.drop n = l :: ls) (hc : d.codeLines.drop n = c :: cs)
    (hlength : c.length = l.length) :
    Edit.splice d (terminatorEdit dialect d n) =
      ⟨d.lineStart n + c.trimRight.length, d.lineStart n + c.trimRight.length,
        dialect.terminator⟩ := by
  have hoffset := Document.offsetAt_of_drop hl (hlength ▸ Text.length_trimRight_le c)
  rw [terminatorEdit, Document.getD_of_drop hc]
  simp only [Edit.splice, Edit.insertAt, Span.emptyAt, hoffset]

theorem insertions_lineParts (dialect : Dialect) (o : Nat) {l c : Text}
    (hlength : c.length = l.length) :
    Edit.insertions o (lineParts dialect l c) =
      if Terminator.isMissing dialect (LineShape.of l c) then
        [⟨o + c.trimRight.length, o + c.trimRight.length, dialect.terminator⟩]
      else [] := by
  have hcolumn := Text.length_trimRight_le c
  unfold lineParts
  split
  · simp [Nat.min_eq_left (hlength ▸ hcolumn)]
  · rfl

/-- **The edits for the terminators are the splices of the script**, line by line.  An edit names a
line and a column, and its offset is where the line starts and the column; the script comes to that
offset by going through what stands in front of it. -/
theorem splices_missingFrom (dialect : Dialect) (d : Document) :
    ∀ (ls : List Text) (r : Region) (n : Nat), d.lines.drop n = ls →
      d.codeLines.drop n = Mask.codeLines r ls →
      (Terminator.missingFrom dialect n ls (Mask.codeLines r ls)).map
          (fun m => Edit.splice d (terminatorEdit dialect d m)) =
        Edit.insertions (d.lineStart n) (bodyParts dialect ls (Mask.codeLines r ls))
  | [], _, _, _, _ => rfl
  | l :: ls, r, n, hl, hc => by
    have hlength := Mask.length_scan r l
    have hnext : d.lines.drop (n + 1) = ls := by rw [← List.tail_drop, hl, List.tail_cons]
    have hnext' : d.codeLines.drop (n + 1) = Mask.codeLines (r.behind l).afterNewline ls := by
      rw [← List.tail_drop, hc, Mask.codeLines, List.tail_cons]
    have ih := splices_missingFrom dialect d ls _ (n + 1) hnext hnext'
    have hstart : d.lineStart (n + 1) = d.lineStart n + (l.length + 1) :=
      Document.lineStartIn_succ hl
    have hrest : Edit.insertions (d.lineStart n + l.length)
        (if ls = [] then [] else
          .keep ['\n'] :: bodyParts dialect ls (Mask.codeLines (r.behind l).afterNewline ls)) =
        Edit.insertions (d.lineStart (n + 1))
          (bodyParts dialect ls (Mask.codeLines (r.behind l).afterNewline ls)) := by
      split
      · simp [bodyParts, ‹ls = []›]
      · rw [Edit.insertions_keep, hstart]
        rfl
    have hsplice := splice_terminatorEdit dialect hl (Mask.codeLines.eq_2 .. ▸ hc) hlength
    rw [Mask.codeLines, Terminator.missingFrom, bodyParts, Edit.insertions_append,
      source_lineParts, hrest, ← ih, insertions_lineParts dialect _ hlength]
    split
    · rw [List.map_cons, hsplice]
      rfl
    · rfl

/-- No terminator is put in at the start of the text. -/
theorem lt_of_mem_insertions {dialect : Dialect} {s : Edit.Splice} {ls : List Text} {r : Region}
    {o : Nat} (h : s ∈ Edit.insertions o (bodyParts dialect ls (Mask.codeLines r ls))) :
    o < s.start := by
  induction ls generalizing o r with
  | nil => simp [bodyParts] at h
  | cons l ls ih =>
    rw [Mask.codeLines, bodyParts, Edit.insertions_append, List.mem_append] at h
    rcases h with h | h
    · rw [insertions_lineParts dialect o (Mask.length_scan r l)] at h
      split at h
      · rename_i hmissing
        rw [List.mem_singleton.mp h]
        have := List.length_pos_iff.mpr (trimRight_ne_nil_of_isMissing hmissing)
        simp only
        omega
      · simp at h
    · split at h
      · simp at h
      · have := ih (Edit.insertions_keep .. ▸ h)
        omega

theorem splice_openingEdit (dialect : Dialect) (d : Document) :
    Edit.splice d (openingEdit dialect) = ⟨0, 0, (openingEdit dialect).newText⟩ := by
  have hoffset : d.offsetAt ⟨0, 0⟩ = 0 := by
    simp [Document.offsetAt, Document.lineStart, Document.lineStartIn]
  simp only [Edit.splice, openingEdit, Edit.insertAt, Span.emptyAt, hoffset]

theorem splice_closingEdit (dialect : Dialect) (t : Text) :
    Edit.splice (.ofText t) (closingEdit dialect (.ofText t)) =
      ⟨t.length, t.length, (closingEdit dialect (.ofText t)).newText⟩ := by
  have hend := Document.end_of_last_line (Text.lines_ne_nil t)
  rw [Text.joinLines_lines] at hend
  have hoffset : (Document.ofText t).offsetAt
      ⟨(Document.ofText t).lastLine, (Document.ofText t).lineLength (Document.ofText t).lastLine⟩ =
        t.length := by
    simp only [Document.offsetAt, Nat.min_self]
    exact hend
  simp only [Edit.splice, closingEdit, Edit.insertAt, Span.emptyAt, hoffset]

/-- The edit for the opening wrapper is the splice of what is put in front of the text, … -/
theorem splices_opening (dialect : Dialect) (d : Document) :
    (if lacks dialect.openWrapper d then [openingEdit dialect] else []).map (Edit.splice d) =
      Edit.insertions 0 (openingParts dialect d) := by
  unfold openingParts
  split
  · rw [List.map_singleton, splice_openingEdit]
    rfl
  · rfl

/-- … and that for the closing one the splice of what is put behind it. -/
theorem splices_closing (dialect : Dialect) (t : Text) :
    (if lacks dialect.closeWrapper (.ofText t) then [closingEdit dialect (.ofText t)] else []).map
        (Edit.splice (.ofText t)) =
      Edit.insertions t.length (closingParts dialect (.ofText t)) := by
  unfold closingParts
  split
  · rw [List.map_singleton, splice_closingEdit dialect t]
    rfl
  · rfl

theorem source_openingParts (dialect : Dialect) (d : Document) :
    Edit.source (openingParts dialect d) = [] := by
  unfold openingParts
  split <;> rfl

theorem source_closingParts (dialect : Dialect) (d : Document) :
    Edit.source (closingParts dialect d) = [] := by
  unfold closingParts
  split <;> rfl

/-- **Sorted, the splices of the preferred edits are those of the script.**  The opening wrapper
comes last among the edits, and no terminator can stand at the start of the text before it. -/
theorem mergeSort_splices (dialect : Dialect) (t : Text) :
    let d := Document.ofText t
    (((Terminator.missingLines dialect d).map (terminatorEdit dialect d) ++
        ((if lacks dialect.openWrapper d then [openingEdit dialect] else []) ++
          if lacks dialect.closeWrapper d then [closingEdit dialect d] else [])).map
      (Edit.splice d)).mergeSort Edit.Splice.precedes = Edit.insertions 0 (parts dialect d) := by
  intro d
  have hcode : d.codeLines = Mask.codeLines .code d.lines := Document.codeLines_ofText t
  have hsource : Edit.source (bodyParts dialect d.lines d.codeLines) = t := by
    rw [source_bodyParts dialect (Document.length_codeLines t).symm]
    exact Text.joinLines_lines t
  have hbody : ((Terminator.missingLines dialect d).map (terminatorEdit dialect d)).map
      (Edit.splice d) = Edit.insertions 0 (bodyParts dialect d.lines d.codeLines) := by
    rw [List.map_map, Terminator.missingLines, hcode]
    exact splices_missingFrom dialect d d.lines .code 0 rfl hcode
  have hlast : Edit.insertions 0 (bodyParts dialect d.lines d.codeLines ++ closingParts dialect d) =
      Edit.insertions 0 (bodyParts dialect d.lines d.codeLines) ++
        Edit.insertions t.length (closingParts dialect d) := by
    rw [Edit.insertions_append, hsource, Nat.zero_add]
  have hsorted := Edit.pairwise_insertions 0
    (bodyParts dialect d.lines d.codeLines ++ closingParts dialect d)
  rw [hlast] at hsorted
  rw [List.map_append, List.map_append, hbody, splices_closing, parts, openingParts]
  split
  · rw [List.map_singleton, splice_openingEdit, List.singleton_append, List.singleton_append,
      Edit.insertions_put, hlast]
    refine Edit.mergeSort_toFront (fun a ha => ?_) (fun b hb => ?_) hsorted
    · rw [hcode] at ha
      have := lt_of_mem_insertions ha
      rw [← Bool.not_eq_true, Edit.Splice.precedes_iff]
      simp only
      omega
    · rw [Edit.Splice.precedes_iff]
      simp only
      omega
  · rw [List.map_nil, List.nil_append, List.nil_append, hlast]
    exact List.mergeSort_of_pairwise hsorted

end QuickFix

/-! ## 6. Fixing a document -/

/-- **Fixing a document comes to a rewriting line by line**, between what is missing of the wrapper,
and never fails.  Edits could be refused for a position that there is not, or because they overlap.
The positions are those of lines that the text has, and as nothing is taken out, nothing can
overlap. -/
theorem fixDocument_eq (dialect : Dialect) (w : Wording) (t : Text) :
    let d := Document.ofText t
    fixDocument dialect w t = .ok (Edit.target (QuickFix.openingParts dialect d) ++
      (joinLines (List.zipWith (QuickFix.withTerminator dialect) d.lines d.codeLines) ++
        Edit.target (QuickFix.closingParts dialect d))) := by
  intro d
  have hlength : d.lines.length = d.codeLines.length := (Document.length_codeLines t).symm
  have hsource : Edit.source (QuickFix.parts dialect d) = t := by
    rw [QuickFix.parts, Edit.source_append, Edit.source_append, QuickFix.source_openingParts,
      QuickFix.source_closingParts, QuickFix.source_bodyParts dialect hlength, List.nil_append,
      List.append_nil]
    exact Text.joinLines_lines t
  have htarget : Edit.target (QuickFix.parts dialect d) =
      Edit.target (QuickFix.openingParts dialect d) ++
        (joinLines (List.zipWith (QuickFix.withTerminator dialect) d.lines d.codeLines) ++
          Edit.target (QuickFix.closingParts dialect d)) := by
    rw [QuickFix.parts, Edit.target_append, Edit.target_append,
      QuickFix.target_bodyParts dialect hlength]
  obtain ⟨fixes, hfixes, hedits⟩ := QuickFix.preferredEdits_forText dialect w t
  have hsorted := QuickFix.mergeSort_splices dialect t
  dsimp only at hsorted
  rw [← hedits] at hsorted
  have happly := Edit.applyAll_eq_target hsource hsorted
  rw [QuickFix.preferredEdits, htarget] at happly
  rw [fixDocument, hfixes]
  simp only [happly]

end HypnoScript
