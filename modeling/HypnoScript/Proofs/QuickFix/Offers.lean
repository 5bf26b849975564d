/-
# What the offered fixes do

The fixes for the diagnostics of a text are one for each diagnostic that can be removed on its own,
in their order, and behind them one for the wrapper if a word of it is missing.  Each of them can be
made, and this is what it leads to (`forText_offers`): the terminator behind the last code of the
line that is reported, and the other lines as they were; the lines without that of the declaration,
or with an empty one in its place if it is the last; the text without the occurrence that is
reported; the text between the missing parts of the wrapper.

Edits are given by positions and made by offsets.  For lines the way from the one to the other is in
`joinLines_set` and `joinLines_eraseIdx`: what is put in the place of a part of a line, or of a line
and its newline.  The occurrence of a wrapper word is cut at the end of its line, so what is taken
out is the whole occurrence only if the word has no newline in it.
-/
import HypnoScript.Proofs.Edit.Clamping
import HypnoScript.Proofs.QuickFix.Rewriting

namespace HypnoScript

open Text (joinLines wordOffsets)

/-! ## 1. A line of a text that changes -/

namespace Document

/-- The first line of a text, and the rest. -/
theorem joinLines_cons_eq (l : Text) (ls : List Text) :
    joinLines (l :: ls) = l ++ ls.flatMap ('\n' :: ·) := by
  induction ls generalizing l with
  | nil => exact (List.append_nil l).symm
  | cons m ls ih =>
    rw [Text.joinLines_cons l (List.cons_ne_nil m ls), ih, List.flatMap_cons, List.cons_append]

variable {ls : List Text} {n : Nat}

/-- **A part of a line is changed** by changing the text from the one offset to the other.  Edits
are made by offsets, and this is how what they do is said of lines. -/
theorem joinLines_set {l : Text} {j k : Nat} (hl : ls[n]? = some l) (hj : j ≤ l.length)
    (hk : k ≤ l.length) (u : Text) :
    (joinLines ls).take (lineStartIn ls n + j) ++ u ++ (joinLines ls).drop (lineStartIn ls n + k) =
      joinLines (ls.set n (l.take j ++ u ++ l.drop k)) := by
  induction ls generalizing n with
  | nil => cases hl
  | cons m ls ih =>
    cases n with
    | zero =>
      obtain rfl : m = l := Option.some.inj hl
      have hstart (i : Nat) : lineStartIn (m :: ls) 0 + i = i := Nat.zero_add i
      rw [hstart, hstart, List.set_cons_zero, joinLines_cons_eq, joinLines_cons_eq,
        List.take_append_of_le_length hj, List.drop_append_of_le_length hk]
      simp only [List.append_assoc]
    | succ n =>
      have hls : ls ≠ [] := by
        rintro rfl
        cases hl
      have hset : ls.set n (l.take j ++ u ++ l.drop k) ≠ [] := by
        rwa [Ne, List.set_eq_nil_iff]
      have hstart (i : Nat) : lineStartIn (m :: ls) (n + 1) + i =
          m.length + ((lineStartIn ls n + i) + 1) := by
        rw [lineStartIn_cons_succ]
        omega
      rw [List.set_cons_succ, Text.joinLines_cons m hls, Text.joinLines_cons m hset, ← ih hl,
        hstart, hstart, List.take_length_add_append, List.drop_length_add_append,
        List.take_succ_cons, List.drop_succ_cons]
      simp only [List.append_assoc, List.cons_append]

/-- **A line is taken out** with its newline. -/
theorem joinLines_eraseIdx (h : n + 1 < ls.length) :
    (joinLines ls).take (lineStartIn ls n) ++ (joinLines ls).drop (lineStartIn ls (n + 1)) =
      joinLines (ls.eraseIdx n) := by
  induction ls generalizing n with
  | nil => exact absurd h (Nat.not_lt_zero _)
  | cons m ls ih =>
    have hls : ls ≠ [] := by
      rintro rfl
      exact absurd h (by simp)
    cases n with
    | zero =>
      have hstart : lineStartIn (m :: ls) (0 + 1) = m.length + (0 + 1) := rfl
      rw [List.eraseIdx_cons_zero, Text.joinLines_cons m hls, hstart, List.drop_length_add_append]
      rfl
    | succ n =>
      have hn : n + 1 < ls.length := Nat.lt_of_succ_lt_succ h
      have herase : ls.eraseIdx n ≠ [] := by
        rw [← List.length_pos_iff, List.length_eraseIdx_of_lt (by omega)]
        omega
      have hstart (i : Nat) : lineStartIn (m :: ls) (i + 1) =
          m.length + (lineStartIn ls i + 1) := by
        rw [lineStartIn_cons_succ]
        omega
      rw [List.eraseIdx_cons_succ, Text.joinLines_cons m hls, Text.joinLines_cons m herase, ← ih hn,
        hstart, hstart, List.take_length_add_append, List.drop_length_add_append,
        List.take_succ_cons, List.drop_succ_cons, List.append_assoc, List.cons_append]

/-- The offset of a place on a line. -/
theorem offsetAt_of_getElem? {d : Document} {l : Text} (hl : d.lines[n]? = some l) {k : Nat}
    (hk : k ≤ l.length) : d.offsetAt ⟨n, k⟩ = lineStartIn d.lines n + k := by
  obtain ⟨hn, rfl⟩ := List.getElem?_eq_some_iff.mp hl
  exact offsetAt_of_drop (List.drop_eq_getElem_cons hn) hk

/-- The masked copy of a line is as long as the line. -/
theorem length_of_getElem?_codeLines {t l c : Text} (hl : (ofText t).lines[n]? = some l)
    (hc : (ofText t).codeLines[n]? = some c) : c.length = l.length := by
  have hlengths := congrArg (fun ls : List Nat => ls[n]?) (sameCode_masked t).lengths
  have hmasked : (ofText (masked t)).lines[n]? = some c := hc
  simp only [List.getElem?_map, hmasked, hl, Option.map_some] at hlengths
  exact Option.some.inj hlengths

end Document

/-! ## 2. The fixes one by one -/

namespace QuickFix

variable {dialect : Dialect} {w : Wording} {t : Text} {n : Nat}

/-- **The fix of a line that lacks its terminator** puts it behind the last code of the line. -/
theorem applyAll_terminatorEdit (dialect : Dialect) {l c : Text}
    (hl : (Document.ofText t).lines[n]? = some l)
    (hc : (Document.ofText t).codeLines[n]? = some c) :
    Edit.applyAll t [terminatorEdit dialect (.ofText t) n] =
      .ok (joinLines ((Document.ofText t).lines.set n (putBehindCode dialect.terminator l c))) := by
  have hcolumn : c.trimRight.length ≤ l.length := by
    rw [← Document.length_of_getElem?_codeLines hl hc]
    exact Text.length_trimRight_le c
  have hcode : (Document.ofText t).codeLines.getD n [] = c := by
    rw [List.getD_eq_getElem?_getD, hc]
    rfl
  have hset := Document.joinLines_set hl hcolumn hcolumn dialect.terminator
  have hlines : joinLines (Document.ofText t).lines = t := Text.joinLines_lines t
  rw [hlines] at hset
  rw [Edit.applyAll_singleton, Edit.Splice.apply]
  simp only [Edit.splice, terminatorEdit, Edit.insertAt, Span.emptyAt, hcode,
    Document.offsetAt_of_getElem? hl hcolumn]
  exact congrArg Except.ok hset

/-- **The fix of a variable that is never used** takes its line out, or empties it if it is the
last. -/
theorem applyAll_lineSpan (hn : n < (Document.ofText t).lineCount) :
    Edit.applyAll t [⟨lineSpan (.ofText t) n, []⟩] =
      .ok (joinLines (if n + 1 < (Document.ofText t).lineCount then
        (Document.ofText t).lines.eraseIdx n else (Document.ofText t).lines.set n [])) := by
  have hlines : joinLines (Document.ofText t).lines = t := Text.joinLines_lines t
  have hl := List.getElem?_eq_getElem hn
  have hstart := Document.offsetAt_of_getElem? hl (Nat.zero_le _)
  rw [Edit.applyAll_singleton, Edit.Splice.apply, lineSpan]
  by_cases hlast : n + 1 < (Document.ofText t).lineCount
  · have hstop := Document.offsetAt_of_getElem? (List.getElem?_eq_getElem hlast) (Nat.zero_le _)
    have herase := Document.joinLines_eraseIdx hlast
    rw [hlines] at herase
    simp only [if_pos hlast, Edit.splice, Span.ofLines, hstart, hstop, Nat.add_zero,
      List.append_nil, herase]
  · have hlength := Document.lineLength_of_getElem? hl
    have hstop := Document.offsetAt_of_getElem? hl (Nat.le_refl _)
    have hset := Document.joinLines_set hl (Nat.zero_le _) (Nat.le_refl _) []
    rw [hlines, List.take_zero, List.drop_length] at hset
    simp only [if_neg hlast, Edit.splice, Span.onLine, hlength, Nat.zero_add, hstart, hstop]
    exact congrArg Except.ok hset

/-- **The fix of an occurrence** takes out what the span covers. -/
theorem applyAll_covers {s : Span} {o width : Nat} (h : (Document.ofText t).Covers s o width) :
    Edit.applyAll t [⟨s, []⟩] = .ok (t.take o ++ t.drop (o + width)) := by
  rw [Edit.applyAll_singleton, Edit.Splice.apply]
  simp only [Edit.splice, h.start, h.stop, List.append_nil]

/-- **The fix of the wrapper** puts the missing parts around the text. -/
theorem applyAll_addWrapper (dialect : Dialect) (w : Wording) (t : Text) :
    let d := Document.ofText t
    Edit.applyAll t
        (addWrapper dialect w d (lacks dialect.openWrapper d) (lacks dialect.closeWrapper d)).edits =
      .ok (Edit.target (openingParts dialect d) ++ (t ++ Edit.target (closingParts dialect d))) := by
  intro d
  -- Read as a script: the opening part, the text as it is, the closing part.
  have hsource : Edit.source (openingParts dialect d ++ .keep t :: closingParts dialect d) = t := by
    rw [Edit.source_append, Edit.source_keep, source_openingParts, source_closingParts,
      List.nil_append, List.append_nil]
  have htarget : Edit.target (openingParts dialect d ++ .keep t :: closingParts dialect d) =
      Edit.target (openingParts dialect d) ++ (t ++ Edit.target (closingParts dialect d)) := by
    rw [Edit.target_append, Edit.target_keep]
  have hsplices : ((if lacks dialect.openWrapper d then [openingEdit dialect] else []) ++
      if lacks dialect.closeWrapper d then [closingEdit dialect d] else []).map (Edit.splice d) =
        Edit.insertions 0 (openingParts dialect d ++ .keep t :: closingParts dialect d) := by
    rw [List.map_append, splices_opening, splices_closing, Edit.insertions_append,
      Edit.insertions_keep, source_openingParts, List.length_nil, Nat.add_zero, Nat.zero_add]
  rw [← htarget]
  refine Edit.applyAll_eq_target hsource ?_
  exact (congrArg (List.mergeSort · Edit.Splice.precedes) hsplices).trans
    (List.mergeSort_of_pairwise (Edit.pairwise_insertions 0 _))

/-! ## 3. What is offered -/

/-- The title of the fix for a rule of which each diagnostic can be removed on its own. -/
def ownTitle? : Rule → Option Message
  | .missingTerminator => some .addTerminator
  | .unusedVariable => some .removeUnused
  | .duplicateOpenWrapper | .duplicateCloseWrapper => some .removeDuplicate
  | _ => none

/-- Whether a diagnostic can be removed on its own. -/
def isOwn (g : Diagnostic) : Bool := (g.rule.bind ownTitle?).isSome

/-- What the fix for a diagnostic of a document is to lead to. -/
inductive Repairs (dialect : Dialect) (d : Document) (g : Diagnostic) : Text → Prop
  /-- The line that lacks its terminator gets it behind its last code. -/
  | terminator {n : Nat} {l c : Text} (hrule : g.rule = some .missingTerminator)
    (hn : n ∈ Terminator.missingLines dialect d) (hrange : g.range = d.endOfLine n)
    (hl : d.lines[n]? = some l) (hc : d.codeLines[n]? = some c) :
    Repairs dialect d g (joinLines (d.lines.set n (putBehindCode dialect.terminator l c)))
  /-- The line with the declaration of a variable that is not used goes, or is emptied. -/
  | unused {v : Declaration.Variable} {o n : Nat} (hrule : g.rule = some .unusedVariable)
    (hv : v ∈ Declaration.variables dialect d.code) (hused : v.used = false)
    (ho : o ∈ v.declarations) (hrange : g.range = d.spanAt o v.name.length)
    (hn : n = (d.positionAt o).line) :
    Repairs dialect d g
      (joinLines (if n + 1 < d.lineCount then d.lines.eraseIdx n else d.lines.set n []))
  /-- An occurrence of a word of the wrapper goes. -/
  | duplicate {rule : Rule} {word : Text} {o : Nat} (hrule : g.rule = some rule)
    (hword : (rule, word) ∈ [(.duplicateOpenWrapper, dialect.openWrapper),
      (.duplicateCloseWrapper, dialect.closeWrapper)])
    (ho : o ∈ wordOffsets word d.code) (hrange : g.range = d.spanAt o word.length) :
    Repairs dialect d g (d.text.take o ++ d.text.drop (o + word.length))

/-- A fix is what is to be offered for a diagnostic: it is for its rule and has the title for that,
and it can be made and does what it is to do. -/
structure Offers (dialect : Dialect) (w : Wording) (d : Document) (g : Diagnostic)
    (f : QuickFix) : Prop where
  rule : g.rule = some f.rule
  title : (ownTitle? f.rule).map w = some f.title
  applies : ∃ u, Edit.applyAll d.text f.edits = .ok u ∧ Repairs dialect d g u

/-- For a diagnostic of the wrapper check that can be removed on its own, what is to be offered is
offered. -/
theorem offers_wrapper (ho : '\n' ∉ dialect.openWrapper) (hc : '\n' ∉ dialect.closeWrapper)
    {g : Diagnostic} (hg : g ∈ Wrapper.check dialect w (.ofText t)) (hown : isOwn g = true) :
    ∃ f, fixesFor dialect w (.ofText t) g = [f] ∧ Offers dialect w (.ofText t) g f := by
  have hduplicate {word : Text} {o : Nat} (hn : '\n' ∉ word)
      (hmem : o ∈ wordOffsets word (Document.ofText t).code) :
      Edit.applyAll t [⟨(Document.ofText t).spanAt o word.length, []⟩] =
        .ok (t.take o ++ t.drop (o + word.length)) :=
    applyAll_covers (Document.covers_spanAt hn (Text.standsAt_wordOffsets hmem))
  cases Wrapper.reported_of_mem hg with
  | noOpen | noClose | order => cases hown
  | duplicateOpen hmem =>
    refine ⟨_, rfl, rfl, rfl, _, hduplicate ho hmem, ?_⟩
    exact .duplicate rfl List.mem_cons_self hmem rfl
  | duplicateClose hmem =>
    refine ⟨_, rfl, rfl, rfl, _, hduplicate hc hmem, ?_⟩
    exact .duplicate rfl (List.mem_cons_of_mem _ List.mem_cons_self) hmem rfl

/-- For a missing terminator, too, … -/
theorem offers_terminator {g : Diagnostic} (hg : g ∈ Terminator.check dialect w (.ofText t)) :
    ∃ f, fixesFor dialect w (.ofText t) g = [f] ∧ Offers dialect w (.ofText t) g f := by
  obtain ⟨n, hn, rfl⟩ := List.mem_map.mp hg
  have hline : n < (Document.ofText t).lineCount := Terminator.lt_of_mem_missingLines hn
  have hcode : n < (Document.ofText t).codeLines.length := by
    rwa [Document.length_codeLines]
  have hl := List.getElem?_eq_getElem hline
  have hc := List.getElem?_eq_getElem hcode
  exact ⟨_, rfl, rfl, rfl, _, applyAll_terminatorEdit dialect hl hc, .terminator rfl hn rfl hl hc⟩

/-- … and for a variable that is not used. -/
theorem offers_declaration {g : Diagnostic} (hg : g ∈ Declaration.check dialect w (.ofText t)) :
    ∃ f, fixesFor dialect w (.ofText t) g = [f] ∧ Offers dialect w (.ofText t) g f := by
  have hline := (Declaration.mem_check hg).2.line_lt
  obtain ⟨v, hv, hused, o, ho, rfl⟩ := Declaration.mem_check_iff.mp hg
  exact ⟨_, rfl, rfl, rfl, _, applyAll_lineSpan hline, .unused rfl hv hused ho rfl rfl⟩

/-- **For each diagnostic that can be removed on its own, what is to be offered is offered.**  What
a diagnostic points at is known (`analyze_pointsAt`), so its fix takes out or completes just that.
-/
theorem offers_of_mem_analyze (ho : '\n' ∉ dialect.openWrapper)
    (hc : '\n' ∉ dialect.closeWrapper) {g : Diagnostic} (hg : g ∈ analyze dialect w t)
    (hown : isOwn g = true) :
    ∃ f, fixesFor dialect w (.ofText t) g = [f] ∧ Offers dialect w (.ofText t) g f := by
  simp only [analyze, Document.diagnostics, List.mem_append] at hg
  rcases hg with ((hg | hg) | hg) | hg
  · exact offers_wrapper ho hc hg hown
  · rw [isOwn, (Bracket.mem_check hg).1] at hown
    cases hown
  · exact offers_terminator hg
  · exact offers_declaration hg

/-- For the other diagnostics nothing is offered. -/
theorem fixesFor_of_not_isOwn (d : Document) {g : Diagnostic} (h : isOwn g = false) :
    fixesFor dialect w d g = [] := by
  unfold fixesFor
  unfold isOwn at h
  generalize g.rule = rule at h ⊢
  rcases rule with _ | rule
  · rfl
  · cases rule with
    | missingTerminator | unusedVariable | duplicateOpenWrapper | duplicateCloseWrapper => cases h
    | _ => rfl

/-- What is offered for some diagnostics, one after the other. -/
theorem forall₂_flatMap_fixesFor {d : Document} {gs : List Diagnostic}
    (h : ∀ g ∈ gs, isOwn g = true →
      ∃ f, fixesFor dialect w d g = [f] ∧ Offers dialect w d g f) :
    List.Forall₂ (Offers dialect w d) (gs.filter isOwn) (gs.flatMap (fixesFor dialect w d)) := by
  induction gs with
  | nil => exact .nil
  | cons g gs ih =>
    obtain ⟨hg, hgs⟩ := List.forall_mem_cons.mp h
    rw [List.flatMap_cons]
    cases hown : isOwn g with
    | true =>
      obtain ⟨f, hf, hoffers⟩ := hg hown
      rw [List.filter_cons_of_pos hown, hf, List.singleton_append]
      exact .cons hoffers (ih hgs)
    | false =>
      rw [List.filter_cons_of_neg (by simp [hown]), fixesFor_of_not_isOwn d hown, List.nil_append]
      exact ih hgs

/-- **What is offered for the diagnostics of a text can be made and does what it is to do.**  There
is one fix for each diagnostic that can be removed on its own, in their order.  Behind them there is
one more if a word of the wrapper is reported to be missing; it puts what is missing in front of the
text and behind it.

A fix is a list of edits between positions, and a diagnostic is all that it is made from.  So what
it does is known only with what the diagnostic is about, the end of a line, a declaration or an
occurrence of a word, and each of these has an equation for its own edit. -/
theorem forText_offers (ho : '\n' ∉ dialect.openWrapper) (hc : '\n' ∉ dialect.closeWrapper)
    (w : Wording) (t : Text) :
    let gs := analyze dialect w t
    ∃ own wrapper, forText dialect w t gs = .ok (own ++ wrapper) ∧
      List.Forall₂ (Offers dialect w (.ofText t)) (gs.filter isOwn) own ∧
      (reports gs .noOpenWrapper = false ∧ reports gs .noCloseWrapper = false → wrapper = []) ∧
      (reports gs .noOpenWrapper = true ∨ reports gs .noCloseWrapper = true →
        ∃ f, wrapper = [f] ∧ f.title = w .addWrapper ∧
          f.rule = (if reports gs .noOpenWrapper then .noOpenWrapper else .noCloseWrapper) ∧
          Edit.applyAll t f.edits = .ok (
            (if reports gs .noOpenWrapper then dialect.openWrapper ++ " \x7b\n".toList else []) ++ t ++
            (if reports gs .noCloseWrapper then
              (if t.lines.getLast? = some [] then [] else ['\n']) ++ "\x7d ".toList ++
                dialect.closeWrapper ++ ['\n']
            else []))) := by
  intro gs
  have hlines : ∀ g ∈ gs, (Document.ofText t).HasLines g.range :=
    fun g hg => Document.hasLines_of_mem_diagnostics hg
  refine ⟨_, _, forText_eq_ok dialect w hlines, ?_, ?_, ?_⟩
  · exact forall₂_flatMap_fixesFor fun g hg => offers_of_mem_analyze ho hc hg
  · rintro ⟨hopen, hclose⟩
    have hopen : gs.any (·.rule == some .noOpenWrapper) = false := hopen
    have hclose : gs.any (·.rule == some .noCloseWrapper) = false := hclose
    rw [hopen, hclose]
    rfl
  · intro hmissing
    have hmissing : (gs.any (·.rule == some .noOpenWrapper) ||
        gs.any (·.rule == some .noCloseWrapper)) = true := Bool.or_eq_true_iff.mpr hmissing
    have happly := applyAll_addWrapper dialect w t
    dsimp only at happly
    rw [openingParts_reports dialect w t, closingParts_reports dialect w t, ← List.append_assoc,
      ← (any_rule_diagnostics dialect w t).1, ← (any_rule_diagnostics dialect w t).2] at happly
    refine ⟨_, if_pos hmissing, rfl, rfl, happly⟩

/-- A text without a wrapper is put into one, with a last line of its own for the closing word. -/
theorem forText_offers_unwrapped :
    let t := "observe 1;".toList
    ('\n' ∉ Dialect.standard.openWrapper ∧ '\n' ∉ Dialect.standard.closeWrapper) ∧
      ∃ own f, forText .standard .standard t (analyze .standard .standard t) = .ok (own ++ [f]) ∧
        f.rule = .noOpenWrapper ∧
        Edit.applyAll t f.edits = .ok "Focus \x7b\nobserve 1;\n\x7d Relax\n".toList := by
  intro t
  have hopen : '\n' ∉ Dialect.standard.openWrapper := by decide
  have hclose : '\n' ∉ Dialect.standard.closeWrapper := by decide
  have hnoOpen : reports (analyze .standard .standard t) .noOpenWrapper = true := by
    rw [reports, analyze, (any_rule_diagnostics .standard .standard t).1]
    decide +kernel
  have hnoClose : reports (analyze .standard .standard t) .noCloseWrapper = true := by
    rw [reports, analyze, (any_rule_diagnostics .standard .standard t).2]
    decide +kernel
  obtain ⟨own, wrapper, hfixes, -, -, hwrapper⟩ := forText_offers hopen hclose .standard t
  obtain ⟨f, rfl, -, hrule, happly⟩ := hwrapper (Or.inl hnoOpen)
  rw [hnoOpen] at hrule
  rw [hnoOpen, hnoClose] at happly
  exact ⟨⟨hopen, hclose⟩, own, f, hfixes, hrule, happly⟩

end QuickFix
end HypnoScript
