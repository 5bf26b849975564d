/-
# What a diagnostic points at

A diagnostic has a span, and the span lies on one line of the text (`Document.InLine`), whatever the
words of the dialect are.  What it points at is read off the masked copy (`Document.codeUnder`): a
word of the wrapper, one bracket, or the declared name that the message has put in; a terminator
that is missing is missing at the very end of its line (`Diagnostic.PointsAt`).

The search gives offsets, and what stands at them (`Text.StandsAt`).  A span cuts at the end of a
line, so what stands there is found under the span again if it has no newline in it
(`Document.codeUnder_spanAt`).  The words of a wrapper could have one.
-/
import HypnoScript.Proofs.Analysis.Lines
import HypnoScript.Proofs.Analysis.Occurrences
import HypnoScript.Proofs.Masking.Twice
import HypnoScript.Proofs.Text.Spans

namespace HypnoScript

/-! ## 1. Spans on a line -/

namespace Document

theorem lineCount_pos (t : Text) : 0 < (ofText t).lineCount :=
  List.length_pos_of_ne_nil (Text.lines_ne_nil t)

theorem lastLine_lt (t : Text) : (ofText t).lastLine < (ofText t).lineCount :=
  Nat.sub_lt (lineCount_pos t) Nat.one_pos

/-- A span on lines of the document. -/
def HasLines (d : Document) (s : Span) : Prop :=
  s.start.line < d.lineCount ∧ s.stop.line < d.lineCount

theorem InLine.hasLines {d : Document} {s : Span} (h : InLine d s) : HasLines d s :=
  ⟨h.line_lt, h.line_eq.symm ▸ h.line_lt⟩

/-! ## 2. The code under a span -/

/-- The part of the masked copy that a span covers. -/
def codeUnder (d : Document) (s : Span) : Text :=
  (d.code.drop (d.offsetAt s.start)).take (d.offsetAt s.stop - d.offsetAt s.start)

/-- A span covers the characters from an offset on, as many as `width`. -/
structure Covers (d : Document) (s : Span) (o width : Nat) : Prop where
  start : d.offsetAt s.start = o
  stop : d.offsetAt s.stop = o + width

section Code

variable {t p q u : Text}

/-- An offset is where the code in front of it ends, as in the text. -/
theorem positionAt_of_code (h : (ofText t).code = p ++ q) :
    (ofText t).positionAt p.length = p.endOf := by
  have hmasked : masked t = p ++ q := h
  rw [← (sameCode_masked t).positionAt, hmasked, positionAt_append]

theorem offsetAt_of_code (h : (ofText t).code = p ++ q) :
    (ofText t).offsetAt p.endOf = p.length := by
  have hmasked : masked t = p ++ q := h
  have hlength : p.length ≤ (p ++ q).length := by
    rw [List.length_append]
    exact Nat.le_add_right ..
  rw [← positionAt_append p q, ← (sameCode_masked t).offsetAt, hmasked,
    offsetAt_positionAt hlength]

/-- **The span of what stands at an offset of the code covers it**, if it has no newline: then it
ends on the line on which it starts, and the span is not cut. -/
theorem covers_spanAt {o : Nat} (hu : '\n' ∉ u) (h : Text.StandsAt 0 (ofText t).code u o) :
    (ofText t).Covers ((ofText t).spanAt o u.length) o u.length := by
  obtain ⟨p, q, hcode, rfl⟩ := h
  have hboth : (ofText t).code = (p ++ u) ++ q := by rw [List.append_assoc, hcode]
  have hends : (ofText t).ends p.length u.length = (p.endOf, (p ++ u).endOf) := by
    have hstop : (ofText t).positionAt ((p.length : Int) + u.length) = (p ++ u).endOf := by
      rw [← positionAt_of_code hboth, List.length_append, Int.natCast_add]
    have hline : (p ++ u).endOf.line = p.endOf.line := by rw [Text.endOf_append p hu]
    rw [ends, hstop, positionAt_of_code hcode, if_pos hline]
  have hstart : ((ofText t).spanAt p.length u.length).start = p.endOf := congrArg Prod.fst hends
  have hstop : ((ofText t).spanAt p.length u.length).stop = (p ++ u).endOf :=
    congrArg Prod.snd hends
  rw [Nat.zero_add]
  refine ⟨?_, ?_⟩
  · rw [hstart, offsetAt_of_code hcode]
  · rw [hstop, offsetAt_of_code hboth, List.length_append]

/-- **What stands at an offset of the code is found under its span**, if it has no newline. -/
theorem codeUnder_spanAt {o : Nat} (hu : '\n' ∉ u) (h : Text.StandsAt 0 (ofText t).code u o) :
    (ofText t).codeUnder ((ofText t).spanAt o u.length) = u := by
  obtain ⟨hstart, hstop⟩ := covers_spanAt hu h
  obtain ⟨p, q, hcode, rfl⟩ := h
  rw [codeUnder, hstart, hstop, hcode, Nat.zero_add, List.drop_left, Nat.add_sub_cancel_left,
    List.take_left]

end Code

end Document

/-! ## 3. What the checks report -/

/-- What a diagnostic points at, rule by rule. -/
def Diagnostic.PointsAt (dialect : Dialect) (w : Wording) (d : Document) (g : Diagnostic) : Prop :=
  match g.rule with
  | some .noOpenWrapper | some .noCloseWrapper => g.range.start = g.range.stop
  | some .duplicateOpenWrapper | some .wrapperOrder => d.codeUnder g.range = dialect.openWrapper
  | some .duplicateCloseWrapper => d.codeUnder g.range = dialect.closeWrapper
  | some .unbalancedBracket =>
    ∃ c ∈ ['{', '}', '(', ')', '[', ']'], d.codeUnder g.range = [c]
  | some .missingTerminator =>
    g.range.start = g.range.stop ∧ g.range.stop.column = d.lineLength g.range.stop.line
  | some .unusedVariable =>
    ∃ v ∈ Declaration.variables dialect d.code, d.codeUnder g.range = v.name ∧
      g.message = Message.withName (w .unusedVariable) v.name
  | none => False

variable {dialect : Dialect} {w : Wording} {t : Text} {g : Diagnostic}

namespace Wrapper

/-- What the wrapper check can report: a word that is missing, or one that is found. -/
inductive Reported (dialect : Dialect) (w : Wording) (d : Document) : Diagnostic → Prop
  | noOpen : Reported dialect w d (report w .noOpenWrapper .noOpenWrapper (Span.onLine 0 0 0))
  | noClose :
    Reported dialect w d (report w .noCloseWrapper .noCloseWrapper (Span.onLine d.lastLine 0 0))
  | duplicateOpen {o : Nat} (hmem : o ∈ Text.wordOffsets dialect.openWrapper d.code) :
    Reported dialect w d (report w .duplicateOpenWrapper .duplicateOpenWrapper
      (d.spanAt o dialect.openWrapper.length))
  | duplicateClose {o : Nat} (hmem : o ∈ Text.wordOffsets dialect.closeWrapper d.code) :
    Reported dialect w d (report w .duplicateCloseWrapper .duplicateCloseWrapper
      (d.spanAt o dialect.closeWrapper.length))
  | order {o : Nat} (hmem : o ∈ Text.wordOffsets dialect.openWrapper d.code) :
    Reported dialect w d (report w .wrapperOrder .wrapperOrder
      (d.spanAt o dialect.openWrapper.length))

theorem reported_of_mem {d : Document} (h : g ∈ check dialect w d) : Reported dialect w d g := by
  simp only [check, List.mem_append] at h
  rcases h with (((h | h) | h) | h) | h
  · split at h
    · rw [List.mem_singleton.mp h]
      exact .noOpen
    · exact absurd h List.not_mem_nil
  · split at h
    · rw [List.mem_singleton.mp h]
      exact .noClose
    · exact absurd h List.not_mem_nil
  · obtain ⟨o, ho, rfl⟩ := List.mem_map.mp h
    exact .duplicateOpen (List.mem_of_mem_drop ho)
  · obtain ⟨o, ho, rfl⟩ := List.mem_map.mp h
    exact .duplicateClose (List.mem_of_mem_drop ho)
  · split at h
    · rename_i o os c cs hopens hcloses
      split at h
      · rw [List.mem_singleton.mp h]
        exact .order (hopens ▸ List.mem_cons_self)
      · exact absurd h List.not_mem_nil
    · exact absurd h List.not_mem_nil

/-- What the wrapper check reports is about its own rules, and about a line that there is. -/
theorem mem_check (h : g ∈ check dialect w (.ofText t)) :
    (g.rule ≠ some .missingTerminator ∧ g.rule ≠ some .unbalancedBracket ∧
        g.rule ≠ some .unusedVariable) ∧ (Document.ofText t).InLine g.range := by
  cases reported_of_mem h with
  | noOpen =>
    exact ⟨by simp [report], Document.inLine_onLine (Document.lineCount_pos t) (Nat.zero_le _)⟩
  | noClose =>
    exact ⟨by simp [report], Document.inLine_onLine (Document.lastLine_lt t) (Nat.zero_le _)⟩
  | duplicateOpen | duplicateClose | order =>
    exact ⟨by simp [report], Document.inLine_spanAt t _ _⟩

/-- The wrapper check points at the words of the wrapper. -/
theorem pointsAt_check (ho : '\n' ∉ dialect.openWrapper) (hc : '\n' ∉ dialect.closeWrapper)
    (h : g ∈ check dialect w (.ofText t)) : g.PointsAt dialect w (.ofText t) := by
  cases reported_of_mem h with
  | noOpen => rfl
  | noClose => rfl
  | duplicateOpen hmem => exact Document.codeUnder_spanAt ho (Text.standsAt_wordOffsets hmem)
  | duplicateClose hmem => exact Document.codeUnder_spanAt hc (Text.standsAt_wordOffsets hmem)
  | order hmem => exact Document.codeUnder_spanAt ho (Text.standsAt_wordOffsets hmem)

end Wrapper

namespace Bracket

theorem mem_check (h : g ∈ check w (.ofText t)) :
    g.rule = some .unbalancedBracket ∧ (Document.ofText t).InLine g.range := by
  obtain ⟨o, -, rfl⟩ := List.mem_map.mp h
  exact ⟨rfl, Document.inLine_spanAt t o 1⟩

/-- The bracket check points at single brackets. -/
theorem pointsAt_check (h : g ∈ check w (.ofText t)) : g.PointsAt dialect w (.ofText t) := by
  obtain ⟨o, ho, rfl⟩ := List.mem_map.mp h
  obtain ⟨c, hc, hstands⟩ := bracket_of_mem_faults ho
  have hmem : c ∈ ['{', '}', '(', ')', '[', ']'] := by
    simp only [isOpener, isCloser, Bool.or_eq_true, beq_iff_eq] at hc
    rcases hc with ((rfl | rfl) | rfl) | (rfl | rfl) | rfl <;> decide
  have hn : '\n' ∉ [c] := by
    intro hm
    obtain rfl : '\n' = c := List.mem_singleton.mp hm
    exact absurd hc (by decide)
  have hunder := Document.codeUnder_spanAt hn hstands
  rw [List.length_singleton] at hunder
  exact ⟨c, hmem, hunder⟩

end Bracket

namespace Terminator

theorem mem_missingFrom {m n : Nat} {ls cs : List Text} (h : m ∈ missingFrom dialect n ls cs) :
    n ≤ m ∧ m < n + ls.length := by
  induction ls generalizing n cs with
  | nil => simp [missingFrom] at h
  | cons l ls ih =>
    cases cs with
    | nil => simp [missingFrom] at h
    | cons c cs =>
      have hrest : m ∈ missingFrom dialect (n + 1) ls cs →
          n ≤ m ∧ m < n + (l :: ls).length := by
        intro hm
        have := ih hm
        rw [List.length_cons]
        omega
      simp only [missingFrom] at h
      split at h
      · rcases List.mem_cons.mp h with rfl | h
        · exact ⟨Nat.le_refl _, by rw [List.length_cons]; omega⟩
        · exact hrest h
      · exact hrest h

theorem lt_of_mem_missingLines {d : Document} {n : Nat} (h : n ∈ missingLines dialect d) :
    n < d.lineCount := by
  have := (mem_missingFrom h).2
  rwa [Nat.zero_add] at this

theorem mem_check {d : Document} (h : g ∈ check dialect w d) :
    g.rule = some .missingTerminator ∧ d.InLine g.range := by
  obtain ⟨n, hn, rfl⟩ := List.mem_map.mp h
  exact ⟨rfl, Document.inLine_onLine (lt_of_mem_missingLines hn) (Nat.le_refl _)⟩

/-- The terminator check points at ends of lines. -/
theorem pointsAt_check {d : Document} (h : g ∈ check dialect w d) : g.PointsAt dialect w d := by
  obtain ⟨n, -, rfl⟩ := List.mem_map.mp h
  exact ⟨rfl, rfl⟩

end Terminator

namespace Declaration

/-- The hint about a declaration of a name. -/
def hintAt (w : Wording) (d : Document) (name : Text) (offset : Nat) : Diagnostic :=
  { range := d.spanAt offset name.length
    message := Message.withName (w .unusedVariable) name
    severity := .hint
    rule := some .unusedVariable }

/-- There is a hint about each declaration of a variable that is not used. -/
theorem mem_check_iff {d : Document} : g ∈ check dialect w d ↔
    ∃ v ∈ Declaration.variables dialect d.code, v.used = false ∧
      ∃ o ∈ v.declarations, g = hintAt w d v.name o := by
  rw [check, List.mem_flatMap]
  refine exists_congr fun v => and_congr_right fun _ => ?_
  cases v.used with
  | true => simp
  | false => simp [hintAt, eq_comm]

theorem mem_check (h : g ∈ check dialect w (.ofText t)) :
    g.rule = some .unusedVariable ∧ (Document.ofText t).InLine g.range := by
  obtain ⟨v, -, -, o, -, rfl⟩ := mem_check_iff.mp h
  exact ⟨rfl, Document.inLine_spanAt t o _⟩

/-- The declarations of a variable are sites of its name. -/
theorem mem_sites_of_mem_declarations {code : Text} {v : Variable} {n : Nat}
    (hv : v ∈ Declaration.variables dialect code) (hn : n ∈ v.declarations) :
    (v.name, n) ∈ sites dialect code := by
  obtain ⟨name, -, rfl⟩ := List.mem_map.mp hv
  obtain ⟨p, hp, rfl⟩ := List.mem_map.mp hn
  obtain ⟨hp, hname⟩ := List.mem_filter.mp hp
  rw [← of_decide_eq_true hname]
  exact hp

/-- The check of declarations points at the declared names. -/
theorem pointsAt_check (h : g ∈ check dialect w (.ofText t)) :
    g.PointsAt dialect w (.ofText t) := by
  obtain ⟨v, hv, -, o, ho, rfl⟩ := mem_check_iff.mp h
  have hstands := standsAt_sites (mem_sites_of_mem_declarations hv ho)
  have hn : '\n' ∉ v.name := fun hm => absurd (hstands.2 _ hm) (by decide)
  exact ⟨v, hv, Document.codeUnder_spanAt hn hstands.1, rfl⟩

end Declaration

/-! ## 4. What the analysis reports -/

namespace Document

/-- **Every diagnostic is about a line that the document has.**  Spans are made from an offset and a
width, and those stay on a line whatever the two are; the terminator check gives the number of a
line itself. -/
theorem inLine_of_mem_diagnostics (h : g ∈ (ofText t).diagnostics dialect w) :
    (ofText t).InLine g.range := by
  simp only [diagnostics, List.mem_append] at h
  rcases h with ((h | h) | h) | h
  · exact (Wrapper.mem_check h).2
  · exact (Bracket.mem_check h).2
  · exact (Terminator.mem_check h).2
  · exact (Declaration.mem_check h).2

theorem hasLines_of_mem_diagnostics (h : g ∈ (ofText t).diagnostics dialect w) :
    (ofText t).HasLines g.range := (inLine_of_mem_diagnostics h).hasLines

/-- The check that reports a rule. -/
def checkFor (dialect : Dialect) (w : Wording) (d : Document) : Rule → List Diagnostic
  | .noOpenWrapper | .noCloseWrapper | .duplicateOpenWrapper | .duplicateCloseWrapper
  | .wrapperOrder => Wrapper.check dialect w d
  | .unbalancedBracket => Bracket.check w d
  | .missingTerminator => Terminator.check dialect w d
  | .unusedVariable => Declaration.check dialect w d

end Document

/-- **What is reported by a rule is what its check reports by it.** -/
theorem mem_analyze_iff {r : Rule} : g ∈ analyze dialect w t ∧ g.rule = some r ↔
    g ∈ Document.checkFor dialect w (.ofText t) r ∧ g.rule = some r := by
  refine and_congr_left fun hrule => ?_
  simp only [analyze, Document.diagnostics, List.mem_append]
  constructor
  · rintro (((h | h) | h) | h)
    · obtain ⟨⟨hterminator, hbracket, hvariable⟩, -⟩ := Wrapper.mem_check h
      cases r with
      | unbalancedBracket => exact absurd hrule hbracket
      | missingTerminator => exact absurd hrule hterminator
      | unusedVariable => exact absurd hrule hvariable
      | noOpenWrapper | noCloseWrapper | duplicateOpenWrapper | duplicateCloseWrapper
      | wrapperOrder => exact h
    · cases (Bracket.mem_check h).1.symm.trans hrule
      exact h
    · cases (Terminator.mem_check h).1.symm.trans hrule
      exact h
    · cases (Declaration.mem_check h).1.symm.trans hrule
      exact h
  · intro h
    cases r with
    | unbalancedBracket => exact Or.inl (Or.inl (Or.inr h))
    | missingTerminator => exact Or.inl (Or.inr h)
    | unusedVariable => exact Or.inr h
    | noOpenWrapper | noCloseWrapper | duplicateOpenWrapper | duplicateCloseWrapper
    | wrapperOrder => exact Or.inl (Or.inl (Or.inl h))

/-- **Diagnostics lie on a line and point at what they report.**  Nothing on the way to them fails:
every line has its masked copy, and the ends of every stretch are in order.

A check searches the masked copy by offsets, and only the span that is made of an offset in the end
is seen.  So what stands at the offset has to be found again under the span (`codeUnder_spanAt`),
for which it must not run over the end of a line; the words of the wrapper might, as a dialect can
have any. -/
theorem analyze_pointsAt (dialect : Dialect) (ho : '\n' ∉ dialect.openWrapper)
    (hc : '\n' ∉ dialect.closeWrapper) (w : Wording) (t : Text) :
    ((Document.ofText t).codeLines.length = (Document.ofText t).lineCount ∧
        ∀ (o : Int) (width : Nat),
          (Document.ofText t).spanAt? o width = .ok ((Document.ofText t).spanAt o width)) ∧
      ∀ g ∈ analyze dialect w t,
        (Document.ofText t).InLine g.range ∧ g.PointsAt dialect w (Document.ofText t) := by
  refine ⟨⟨Document.length_codeLines t, (Document.ofText t).spanAt?_eq_ok⟩, fun g hg => ?_⟩
  refine ⟨Document.inLine_of_mem_diagnostics hg, ?_⟩
  simp only [analyze, Document.diagnostics, List.mem_append] at hg
  rcases hg with ((hg | hg) | hg) | hg
  · exact Wrapper.pointsAt_check ho hc hg
  · exact Bracket.pointsAt_check hg
  · exact Terminator.pointsAt_check hg
  · exact Declaration.pointsAt_check hg

/-- A text with something wrong for every check, and the code that each diagnostic is about: that of
a word, a bracket or a name, and none where something is missing.  All of it is on a line, and the
comment behind the statement is not looked at. -/
theorem analyze_pointsAt_standard :
    let t := "Focus Focus ]\ninduce x = 1 // ;\n".toList
    let d := Document.ofText t
    ('\n' ∉ Dialect.standard.openWrapper ∧ '\n' ∉ Dialect.standard.closeWrapper) ∧
      (analyze .standard .standard t).map (fun g => (g.rule, d.codeUnder g.range)) =
        [(some .noCloseWrapper, []), (some .duplicateOpenWrapper, "Focus".toList),
          (some .unbalancedBracket, [']']), (some .missingTerminator, []),
          (some .unusedVariable, ['x'])] ∧
      ∀ g ∈ analyze .standard .standard t, d.InLine g.range ∧ g.PointsAt .standard .standard d := by
  intro t d
  refine ⟨⟨by decide, by decide⟩, ?_,
    (analyze_pointsAt .standard (by decide) (by decide) .standard t).2⟩
  have hplaced : Text.placed 0 d.code = [(.word "Focus".toList, 0), (.word "Focus".toList, 6),
      (.sign ']', 12), (.word "induce".toList, 14), (.word ['x'], 21), (.sign '=', 23),
      (.word ['1'], 25)] := by decide +kernel
  have hsites : Declaration.sites .standard d.code = [(['x'], 21)] := by
    rw [Declaration.sites_standard, hplaced, Declaration.sitesOf_none rfl,
      Declaration.sitesOf_none rfl, Declaration.sitesOf_none rfl, Declaration.sitesOf_some rfl,
      Declaration.sitesOf_none rfl, Declaration.sitesOf_none rfl, Declaration.sitesOf]
  have hhints : Declaration.check .standard .standard d =
      [Declaration.hintAt .standard d ['x'] 21] := by
    rw [Declaration.check, Declaration.variables, hsites]
    decide +kernel
  show (Document.diagnostics .standard .standard d).map _ = _
  rw [Document.diagnostics, hhints]
  decide +kernel

end HypnoScript
