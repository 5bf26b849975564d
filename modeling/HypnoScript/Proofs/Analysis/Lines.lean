/-
# Diagnostics but for their columns

What the checks find they find among the tokens of the masked copy, so two documents with the same
tokens in the same lines (`SameTokens`) get the same diagnostics from them, but for the columns
(`Diagnostic.rough`).  Only the wrapper looks at offsets themselves, to tell which of two words
comes first; as tokens stand one behind the other, their order tells it as well (`lt_iff_first`).

The terminator check is not about tokens but about the shapes of lines, and left out here.
-/
import HypnoScript.Analysis
import HypnoScript.Proofs.Analysis.Declarations
import HypnoScript.Proofs.Masking.Lines
import HypnoScript.Proofs.Text.Spans

namespace HypnoScript

open Text (IsRun placed located placesOf)

/-- A diagnostic but for its columns: rule, severity and message, and the lines on which it starts
and stops. -/
def Diagnostic.rough (g : Diagnostic) : Option Rule × Severity × String × Nat × Nat :=
  (g.rule, g.severity, g.message, g.range.start.line, g.range.stop.line)

/-! ## 1. The lines of offsets -/

namespace Document

/-- The number of the line of an offset. -/
def lineAt (d : Document) (offset : Nat) : Nat := (d.positionAt offset).line

/-- A span at an offset starts and stops on the line of the offset. -/
theorem line_spanAt (d : Document) (o width : Nat) :
    (d.spanAt o width).start.line = d.lineAt o ∧ (d.spanAt o width).stop.line = d.lineAt o :=
  ⟨rfl, d.line_stop_spanAt o width⟩

/-- **The lines of the tokens of a document** are told by going through the lines one by one: no
token runs over the end of a line. -/
theorem map_lineAt (t : Text) :
    (placed 0 (ofText t).code).map (fun p => (p.1, (ofText t).lineAt p.2)) =
      located 0 (ofText t).codeLines := by
  have hlines : (ofText t).codeLines = Text.lines (ofText t).code := rfl
  have h := Text.map_line_placed 0 (hlines ▸ Text.lines_ne_nil _)
    (hlines ▸ Text.no_newline_of_mem_lines _)
  rw [← h, hlines, Text.joinLines_lines]
  refine List.map_congr_left fun p _ => ?_
  rw [Nat.zero_add, Text.lineOf, ← hlines, codeLines_ofText,
    positionIn_congr p.2 (Mask.map_length_codeLines t.lines .code)]
  rfl

end Document

/-- Two texts have the same number of lines and the same tokens in the same lines of code. -/
structure SameTokens (t u : Text) : Prop where
  lineCount : (Document.ofText t).lineCount = (Document.ofText u).lineCount
  tokens : located 0 (Document.ofText t).codeLines = located 0 (Document.ofText u).codeLines

variable {t u : Text}

/-! ## 2. The wrapper -/

/-- Whole words stand in the same lines. -/
theorem SameTokens.wordOffsets (h : SameTokens t u) {w : Text} (hw : IsRun w) :
    (Text.wordOffsets w (Document.ofText t).code).map (Document.ofText t).lineAt =
      (Text.wordOffsets w (Document.ofText u).code).map (Document.ofText u).lineAt := by
  have key (t : Text) :
      (Text.wordOffsets w (Document.ofText t).code).map (Document.ofText t).lineAt =
        placesOf w (located 0 (Document.ofText t).codeLines) := by
    rw [Text.wordOffsets_eq hw, ← Text.placesOf_map, Document.map_lineAt]
  rw [key, key, h.tokens]

/-- **Which of two words comes first is told by the order of the tokens**, since their offsets
increase.  So offsets need not be known to compare them. -/
theorem lt_iff_first {a b : Text} (hab : a ≠ b) {ts : List (Token × Nat)} {o c : Nat}
    (hs : ts.Pairwise (·.2 < ·.2)) (ho : (placesOf a ts).head? = some o)
    (hc : (placesOf b ts).head? = some c) :
    c < o ↔ (ts.map Prod.fst).find? (fun x => x = .word a || x = .word b) = some (.word b) := by
  induction ts with
  | nil => exact absurd ho (by simp [placesOf])
  | cons p ts ih =>
    obtain ⟨token, n⟩ := p
    obtain ⟨hn, hs⟩ := List.pairwise_cons.mp hs
    have hlater {w : Text} {x : Nat} (h : (placesOf w ts).head? = some x) : n < x := by
      obtain ⟨q, hq, hx⟩ := List.mem_filterMap.mp (List.mem_of_mem_head? h)
      split at hx
      · exact Option.some.inj hx ▸ hn q hq
      · exact absurd hx (by simp)
    rw [placesOf, List.filterMap_cons, ← placesOf] at ho hc
    by_cases h1 : token = .word a
    · have hne : ¬ token = .word b := fun e => hab (Token.word.inj (h1.symm.trans e))
      rw [if_neg hne] at hc
      rw [if_pos h1] at ho
      have hlt := hlater hc
      have hon : n = o := Option.some.inj ho
      simp [h1, hab, ← hon, Nat.le_of_lt hlt]
    · rw [if_neg h1] at ho
      by_cases h2 : token = .word b
      · rw [if_pos h2] at hc
        have hlt := hlater ho
        have hcn : n = c := Option.some.inj hc
        simp [h2, ← hcn, hlt]
      · rw [if_neg h2] at hc
        rw [ih hs ho hc]
        simp [h1, h2]

namespace Wrapper

theorem rough_report (w : Wording) (rule : Rule) (message : Message) (d : Document)
    (o width : Nat) :
    (report w rule message (d.spanAt o width)).rough =
      (some rule, .error, w message, d.lineAt o, d.lineAt o) := by
  rw [Diagnostic.rough, report, (d.line_spanAt o width).1, (d.line_spanAt o width).2]

/-- What is wrong with a wrapper whose words stand in these lines, but for the columns; `crossed`
tells whether the closing word comes first. -/
def inLines (w : Wording) (opens closes : List Nat) (lastLine : Nat) (crossed : Bool) :
    List (Option Rule × Severity × String × Nat × Nat) :=
  (if opens.isEmpty then [(some .noOpenWrapper, .error, w .noOpenWrapper, 0, 0)] else []) ++
    (if closes.isEmpty then
      [(some .noCloseWrapper, .error, w .noCloseWrapper, lastLine, lastLine)] else []) ++
    (opens.drop 1).map
      (fun n => (some .duplicateOpenWrapper, .error, w .duplicateOpenWrapper, n, n)) ++
    (closes.drop 1).map
      (fun n => (some .duplicateCloseWrapper, .error, w .duplicateCloseWrapper, n, n)) ++
    if crossed && !closes.isEmpty then
      (opens.take 1).map fun n => (some .wrapperOrder, .error, w .wrapperOrder, n, n)
    else []

/-- Whether the closing word comes before the opening one among some tokens. -/
def crossed (dialect : Dialect) (ts : List (Token × Nat)) : Bool :=
  (ts.map Prod.fst).find? (fun x =>
    x = .word dialect.openWrapper || x = .word dialect.closeWrapper) ==
      some (.word dialect.closeWrapper)

theorem rough_check {dialect : Dialect} (ho : IsRun dialect.openWrapper)
    (hc : IsRun dialect.closeWrapper) (hne : dialect.openWrapper ≠ dialect.closeWrapper)
    (w : Wording) (t : Text) :
    (check dialect w (Document.ofText t)).map Diagnostic.rough =
      inLines w
        ((Text.wordOffsets dialect.openWrapper (Document.ofText t).code).map
          (Document.ofText t).lineAt)
        ((Text.wordOffsets dialect.closeWrapper (Document.ofText t).code).map
          (Document.ofText t).lineAt)
        (Document.ofText t).lastLine
        (crossed dialect (located 0 (Document.ofText t).codeLines)) := by
  have htokens : (placed 0 (Document.ofText t).code).map Prod.fst =
      (located 0 (Document.ofText t).codeLines).map Prod.fst := by
    rw [← Document.map_lineAt, List.map_map]
    rfl
  have hfirst {o c : Nat}
      (ho' : (Text.wordOffsets dialect.openWrapper (Document.ofText t).code).head? = some o)
      (hc' : (Text.wordOffsets dialect.closeWrapper (Document.ofText t).code).head? = some c) :
      c < o ↔ crossed dialect (located 0 (Document.ofText t).codeLines) = true := by
    rw [Text.wordOffsets_eq ho] at ho'
    rw [Text.wordOffsets_eq hc] at hc'
    rw [crossed, beq_iff_eq, ← htokens]
    exact lt_iff_first hne (Text.pairwise_placed _ 0) ho' hc'
  simp only [check, inLines, List.map_append]
  congr 1
  · congr 1
    · congr 1
      · congr 1
        · cases Text.wordOffsets dialect.openWrapper (Document.ofText t).code <;> rfl
        · cases Text.wordOffsets dialect.closeWrapper (Document.ofText t).code <;> rfl
      · rw [← List.map_drop, List.map_map, List.map_map]
        exact List.map_congr_left fun o _ => rough_report ..
    · rw [← List.map_drop, List.map_map, List.map_map]
      exact List.map_congr_left fun o _ => rough_report ..
  · cases hopens : Text.wordOffsets dialect.openWrapper (Document.ofText t).code with
    | nil => simp
    | cons o os =>
      cases hcloses : Text.wordOffsets dialect.closeWrapper (Document.ofText t).code with
      | nil => simp
      | cons c cs =>
        have hfirst : c < o ↔ _ := hfirst (by rw [hopens]; rfl) (by rw [hcloses]; rfl)
        by_cases hlt : c < o
        · simp [hlt, hfirst.mp hlt, rough_report]
        · simp [hlt, Bool.eq_false_iff.mpr (hfirst.not.mp hlt)]

/-- **The same is wrong with the wrapper.** -/
theorem check_rough (dialect : Dialect) (ho : IsRun dialect.openWrapper)
    (hc : IsRun dialect.closeWrapper) (hne : dialect.openWrapper ≠ dialect.closeWrapper)
    (w : Wording) (h : SameTokens t u) :
    (check dialect w (Document.ofText t)).map Diagnostic.rough =
      (check dialect w (Document.ofText u)).map Diagnostic.rough := by
  rw [rough_check ho hc hne, rough_check ho hc hne, h.wordOffsets ho, h.wordOffsets hc, h.tokens,
    Document.lastLine, Document.lastLine, h.lineCount]

end Wrapper

/-! ## 3. Brackets -/

/-- **The same brackets are faulty**, in the same lines.  The check is one for tokens at any places,
and it may as well be asked for lines as for offsets. -/
theorem Bracket.check_rough (w : Wording) (h : SameTokens t u) :
    (check w (Document.ofText t)).map Diagnostic.rough =
      (check w (Document.ofText u)).map Diagnostic.rough := by
  have key (t : Text) : (check w (Document.ofText t)).map Diagnostic.rough =
      (faultsOf [] (located 0 (Document.ofText t).codeLines)).map fun n =>
        (some .unbalancedBracket, .error, w .unbalancedBracket, n, n) := by
    have hmap := faultsOf_map (Document.ofText t).lineAt (placed 0 (Document.ofText t).code) []
    rw [Document.map_lineAt, ← faults_eq, List.map_nil] at hmap
    rw [check, List.map_map, hmap, List.map_map]
    refine List.map_congr_left fun o _ => ?_
    simp only [Function.comp_apply, Diagnostic.rough, (Document.line_spanAt _ o 1).1,
      (Document.line_spanAt _ o 1).2]
  rw [key, key, h.tokens]

/-! ## 4. Declarations -/

namespace Declaration

theorem names_congr : ∀ {found found' : List (Text × Nat)},
    found.map Prod.fst = found'.map Prod.fst → names found = names found'
  | [], [], _ => rfl
  | (n, _) :: found, (n', _) :: found', h => by
    simp only [List.map_cons, List.cons.injEq] at h
    rw [names, names, names_congr h.2, h.1]

theorem mem_of_mem_names {n : Text} : ∀ {found : List (Text × Nat)}, n ∈ names found →
    ∃ a, (n, a) ∈ found
  | [], h => absurd h List.not_mem_nil
  | (m, a) :: found, h => by
    rw [names, List.mem_cons, List.mem_filter] at h
    rcases h with rfl | ⟨h, -⟩
    · exact ⟨a, List.mem_cons_self⟩
    · obtain ⟨a, ha⟩ := mem_of_mem_names h
      exact ⟨a, List.mem_cons_of_mem _ ha⟩

/-- The hints about variables that are declared among some tokens and not used, but for the
columns. -/
def inLines (w : Wording) (kws : List Text) (ts : List (Token × Nat)) :
    List (Option Rule × Severity × String × Nat × Nat) :=
  (names (sitesOf kws ts)).flatMap fun name =>
    let sites := (sitesOf kws ts).filter (·.1 = name)
    if (placesOf name ts).length > sites.length then []
    else sites.map fun p =>
      (some .unusedVariable, .hint, Message.withName (w .unusedVariable) name, p.2, p.2)

theorem rough_check {dialect : Dialect} (hk : ∀ k ∈ tried dialect.declarationKeywords, IsRun k)
    (w : Wording) (t : Text) :
    (check dialect w (Document.ofText t)).map Diagnostic.rough =
      inLines w (tried dialect.declarationKeywords)
        (located 0 (Document.ofText t).codeLines) := by
  have hfound : sites dialect (Document.ofText t).code =
      sitesOf (tried dialect.declarationKeywords) (placed 0 (Document.ofText t).code) :=
    sitesFrom_eq hk _ 0 false (Or.inl rfl)
  have hsites := sitesOf_map (tried dialect.declarationKeywords) (Document.ofText t).lineAt
    (placed 0 (Document.ofText t).code)
  rw [Document.map_lineAt, ← hfound] at hsites
  have hnames : names (sites dialect (Document.ofText t).code) =
      names (sitesOf (tried dialect.declarationKeywords)
        (located 0 (Document.ofText t).codeLines)) := by
    refine names_congr ?_
    rw [hsites, List.map_map]
    rfl
  rw [check, «variables», inLines, List.flatMap_map, List.map_flatMap, ← hnames]
  refine List.flatMap_congr fun name hname => ?_
  obtain ⟨a, ha⟩ := mem_of_mem_names hname
  have hrun : IsRun name := Text.isRun_of_mem_placed (mem_of_mem_sitesOf (hfound ▸ ha))
  have hcount : (Text.wordOffsets name (Document.ofText t).code).length =
      (placesOf name (located 0 (Document.ofText t).codeLines)).length := by
    rw [Text.wordOffsets_eq hrun, ← Document.map_lineAt, Text.placesOf_map, List.length_map]
  have hfilter : (sitesOf (tried dialect.declarationKeywords)
      (located 0 (Document.ofText t).codeLines)).filter (·.1 = name) =
        ((sites dialect (Document.ofText t).code).filter (·.1 = name)).map
          fun p => (p.1, (Document.ofText t).lineAt p.2) := by
    rw [hsites, List.filter_map]
    rfl
  simp only [Variable.used, hcount, hfilter, List.length_map, decide_eq_true_eq]
  split
  · rfl
  · rw [List.map_map, List.map_map, List.map_map]
    refine List.map_congr_left fun p _ => ?_
    simp only [Function.comp_apply, Diagnostic.rough, (Document.line_spanAt _ p.2 name.length).1,
      (Document.line_spanAt _ p.2 name.length).2]

/-- **The same variables are declared, and not used, in the same lines.** -/
theorem check_rough (dialect : Dialect) (hk : ∀ k ∈ tried dialect.declarationKeywords, IsRun k)
    (w : Wording) (h : SameTokens t u) :
    (check dialect w (Document.ofText t)).map Diagnostic.rough =
      (check dialect w (Document.ofText u)).map Diagnostic.rough := by
  rw [rough_check hk, rough_check hk, h.tokens]

end Declaration
end HypnoScript
