/-
# A duplicate less

Deleting characters in the middle of a text can change how everything behind them is read: two
words can become one, and a slash can open a comment with what comes next to it.  Deleting a word of
the wrapper that stands more than once does not, unless the slash does.  A word that the masked copy
shows stands in code, so the text can be cut there (`Mask.cut_of_behind_code`), and as a whole word
it leaves no word character on either side (`exists_of_standsWhole`).  So the tokens of the code are
the same ones, but for the word (`tokens_without`).

The numbers of diagnostics about the wrapper and about brackets are numbers of tokens
(`count_check_wrapper`, `length_faults`), and this is what becomes of them: one duplicate less, and
all else as before (`removing_duplicate_progresses`).
-/
import HypnoScript.Proofs.Analysis.DeclaredNames
import HypnoScript.Proofs.Analysis.WrapperPlaces
import HypnoScript.Proofs.Masking.Lexemes
import HypnoScript.Proofs.QuickFix.Offers

namespace HypnoScript

open Text (IsRun StandsWhole headIsWord isWord lastIsWord placed placesOf tokens wordOffsets)

/-! ## 1. A word that stands in the code -/

namespace Mask

/-- In code, word characters are shown. -/
theorem scan_code_word_append {w : Text} (hw : ∀ c ∈ w, isWord c = true) (q : Text) :
    (scan .code (w ++ q)).text = w ++ (scan .code q).text := by
  induction w with
  | nil => rfl
  | cons c w ih =>
    obtain ⟨hc, hw⟩ := List.forall_mem_cons.mp hw
    have hne {d : Char} (hd : isWord d = false) : c ≠ d := Text.ne_of_isWord hc hd
    have ho : ¬ OpensComment c (w ++ q) := fun ho => hne (by decide) ho.1
    rw [List.cons_append, scan_code (hne (by decide)) (hne (by decide)) ho, text_push, ih hw,
      List.cons_append]

/-- A word that is shown stands in the text at the same place. -/
theorem exists_of_shown_word {t a w b : Text} (hw : ∀ c ∈ w, isWord c = true)
    (h : masked t = a ++ (w ++ b)) : ∃ p q, t = p ++ (w ++ q) ∧ p.length = a.length := by
  have hhides : List.Forall₂ Hides t (a ++ (w ++ b)) := h ▸ forall₂_hides_scan .code t
  exact exists_of_hides hw hhides

/-- **A word that is shown stands in code**, and what is shown in front of it and behind it is what
the text has there, read on its own. -/
theorem behind_of_shown_word {p q a w b : Text} (hw : IsRun w) (hlength : p.length = a.length)
    (h : masked (p ++ (w ++ q)) = a ++ (w ++ b)) :
    Region.code.behind p = .code ∧ (scan .code p).text = a ∧ (scan .code q).text = b := by
  obtain ⟨c, v, rfl⟩ := List.exists_cons_of_ne_nil hw.1
  have hc : isWord c = true := hw.2 c List.mem_cons_self
  have hne {d : Char} (hd : isWord d = false) : c ≠ d := Text.ne_of_isWord hc hd
  -- A word character joins with nothing, so the text is read in two parts.
  have hplain : IsPlain c := ⟨hne (by decide), hne (by decide), hne (by decide), hne (by decide)⟩
  have hcut := (cut_plain hplain .code p (v ++ q)).text
  rw [← List.cons_append] at hcut
  obtain ⟨hfront, hrest⟩ := List.append_inj (hcut.symm.trans h) (by rw [length_scan, hlength])
  have hcode : Region.code.behind p = .code := by
    -- Anywhere else the first character of the word would be hidden.
    refine Classical.byContradiction fun hr => ?_
    obtain ⟨d, m, hm, hd⟩ := head_scan_hidden (v ++ q) (hne (by decide)) hr fun _ => hplain.2.2.1
    rw [List.cons_append, hm] at hrest
    obtain ⟨rfl, -⟩ := List.cons.inj hrest
    rw [Text.isWord_eq_false_of_isBlank hd] at hc
    cases hc
  rw [hcode, scan_code_word_append hw.2] at hrest
  exact ⟨hcode, hfront, List.append_cancel_left hrest⟩

end Mask

/-- **Without a word that stands in the code as a whole, the code has the same tokens**, but for the
word, unless a comment is opened at its place.  The text can be cut on both sides of the word, so
the two parts are scanned on their own, and no word goes on across the place where they now meet. -/
theorem tokens_without {t w : Text} {n : Nat} (hw : IsRun w) (h : StandsWhole 0 (masked t) w n)
    (hjoin : ¬ Mask.JoinsComment (t.take n) (t.drop (n + w.length))) :
    ∃ ks ls, tokens (masked t) = ks ++ .word w :: ls ∧
      tokens (masked (t.take n ++ t.drop (n + w.length))) = ks ++ ls := by
  obtain ⟨a, b, hmasked, hn, ha, hb⟩ := h
  rw [Nat.zero_add] at hn
  obtain ⟨p, q, rfl, hp⟩ := Mask.exists_of_shown_word hw.2 hmasked
  obtain ⟨hcode, hfront, hrest⟩ := Mask.behind_of_shown_word hw hp hmasked
  have htake : (p ++ (w ++ q)).take n = p := List.take_left' (hp.trans hn)
  have hdrop : (p ++ (w ++ q)).drop (n + w.length) = q := by
    rw [← List.append_assoc]
    exact List.drop_left' (by rw [List.length_append, hp, hn])
  rw [htake, hdrop] at hjoin ⊢
  have hwithout : masked (p ++ q) = a ++ b := by
    have hcut := (Mask.cut_of_behind_code hcode hjoin).text
    rwa [hcode, hfront, hrest] at hcut
  refine ⟨tokens a, tokens b, ?_, ?_⟩
  · rw [hmasked, ← Text.map_fst_placed 0, Text.placed_append_of_lastIsWord ha, List.map_append,
      Text.map_fst_placed, Text.map_fst_placed, Text.tokens_word_append hw hb]
  · rw [hwithout, Text.tokens_append hb]

/-! ## 2. Numbers of tokens -/

theorem Text.length_wordOffsets {w : Text} (hw : IsRun w) (t : Text) :
    (wordOffsets w t).length = (tokens t).count (.word w) := by
  rw [wordOffsets_eq hw, placesOf, List.length_filterMap_eq_countP, ← map_fst_placed 0,
    List.count, List.countP_map]
  refine List.countP_congr fun p _ => ?_
  by_cases hp : p.1 = .word w <;> simp [hp]

namespace Bracket

/-- The number of faulty brackets among some tokens. -/
def faultCount (ks : List Token) : Nat := (faultsOf [] (ks.map fun k => (k, ()))).length

theorem length_faults (t : Text) : (faults t).length = faultCount (tokens t) := by
  have hmap := faultsOf_map (fun _ : Nat => ()) (placed 0 t) []
  rw [faults_eq, faultCount, ← Text.map_fst_placed 0, List.map_map,
    ← List.length_map (fun _ : Nat => ()), ← hmap]
  rfl

/-- A word among the tokens does not matter. -/
theorem faultsOf_append_word {α : Type} (w : Text) (a : α) (ls : List (Token × α))
    (ks : List (Token × α)) : ∀ stack : List (Char × α),
      faultsOf stack (ks ++ (.word w, a) :: ls) = faultsOf stack (ks ++ ls) := by
  induction ks with
  | nil => exact fun _ => rfl
  | cons k ks ih =>
    intro stack
    obtain ⟨token, a⟩ := k
    cases token with
    | word v => exact ih stack
    | sign c => simp only [List.cons_append, faultsOf, ih]

theorem faultCount_append_word (w : Text) (ks ls : List Token) :
    faultCount (ks ++ .word w :: ls) = faultCount (ks ++ ls) := by
  rw [faultCount, List.map_append, List.map_cons, faultsOf_append_word, ← List.map_append,
    faultCount]

end Bracket

/-! ## 3. Numbers of diagnostics -/

/-- The number of diagnostics about a rule. -/
def countRule (r : Rule) (gs : List Diagnostic) : Nat := gs.countP (·.rule == some r)

theorem countRule_append (r : Rule) (gs hs : List Diagnostic) :
    countRule r (gs ++ hs) = countRule r gs + countRule r hs := List.countP_append

/-- Diagnostics about one rule. -/
theorem countRule_of_forall {r q : Rule} {gs : List Diagnostic} (h : ∀ g ∈ gs, g.rule = some q) :
    countRule r gs = if q = r then gs.length else 0 := by
  split
  · rename_i heq
    refine List.countP_eq_length.mpr fun g hg => ?_
    rw [h g hg, heq]
    exact beq_self_eq_true _
  · rename_i hne
    refine List.countP_eq_zero.mpr fun g hg => ?_
    rw [h g hg]
    simpa using hne

/-- The rules about the words of the wrapper and about brackets, but for the order of the words. -/
def tokenRules : List Rule :=
  [.noOpenWrapper, .noCloseWrapper, .duplicateOpenWrapper, .duplicateCloseWrapper,
    .unbalancedBracket]

/-- How many diagnostics there are about each of these rules, when the words stand a number of times
and a number of brackets are faulty. -/
def numberOf (opens closes faults : Nat) : Rule → Nat
  | .noOpenWrapper => 1 - opens
  | .noCloseWrapper => 1 - closes
  | .duplicateOpenWrapper => opens - 1
  | .duplicateCloseWrapper => closes - 1
  | .unbalancedBracket => faults
  | _ => 0

/-- The wrapper check reports a word that is missing once, and each further occurrence. -/
theorem Wrapper.countRule_check (dialect : Dialect) (w : Wording) (d : Document) (r : Rule) :
    let opens := wordOffsets dialect.openWrapper d.code
    let closes := wordOffsets dialect.closeWrapper d.code
    ∃ misplaced, countRule r (check dialect w d) =
      (if .noOpenWrapper = r then 1 - opens.length else 0) +
        (if .noCloseWrapper = r then 1 - closes.length else 0) +
        (if .duplicateOpenWrapper = r then opens.length - 1 else 0) +
        (if .duplicateCloseWrapper = r then closes.length - 1 else 0) +
        (if .wrapperOrder = r then misplaced else 0) := by
  intro opens closes
  obtain ⟨order, horder, hcheck⟩ := check_eq dialect w d
  have hmissing {ns : List Nat} {q : Rule} (m : Message) (s : Span) :
      countRule r (if ns = [] then [report w q m s] else []) =
        if q = r then 1 - ns.length else 0 := by
    rw [countRule_of_forall (q := q) ?_]
    · cases ns <;> simp
    · intro g hg
      split at hg
      · rw [List.mem_singleton.mp hg]
        rfl
      · cases hg
  have hagain {ns : List Nat} {q : Rule} (m : Message) (word : Text) :
      countRule r (ns.tail.map (errorAt w d q m word)) = if q = r then ns.length - 1 else 0 := by
    rw [countRule_of_forall (q := q) ?_, List.length_map, List.length_tail]
    intro g hg
    obtain ⟨n, -, rfl⟩ := List.mem_map.mp hg
    rfl
  have horder : countRule r order = if .wrapperOrder = r then order.length else 0 := by
    refine countRule_of_forall fun g hg => ?_
    cases horder with
    | wrong hopen hclose hlt =>
      rw [List.mem_singleton.mp hg]
      rfl
    | right h => cases hg
  refine ⟨order.length, ?_⟩
  rw [hcheck, countRule_append, countRule_append, countRule_append, countRule_append, hmissing,
    hmissing, hagain, hagain, horder]

/-- **The numbers of diagnostics are numbers of tokens.**  So two texts need not be compared
diagnostic by diagnostic, with spans that have all moved; it is enough to count tokens. -/
theorem countRule_analyze {dialect : Dialect} (ho : IsRun dialect.openWrapper)
    (hc : IsRun dialect.closeWrapper) (w : Wording) {t : Text} {ks : List Token}
    (hks : tokens (masked t) = ks) {r : Rule} (hr : r ∈ tokenRules) :
    countRule r (analyze dialect w t) =
      numberOf (ks.count (.word dialect.openWrapper)) (ks.count (.word dialect.closeWrapper))
        (Bracket.faultCount ks) r := by
  have hcode : (Document.ofText t).code = masked t := rfl
  have hbracket (r : Rule) : countRule r (Bracket.check w (.ofText t)) =
      if .unbalancedBracket = r then Bracket.faultCount ks else 0 := by
    rw [countRule_of_forall fun g hg => (Bracket.mem_check hg).1, Bracket.check, List.length_map,
      hcode, Bracket.length_faults, hks]
  have hterminator (r : Rule) := countRule_of_forall (r := r) fun g
    (hg : g ∈ Terminator.check dialect w (.ofText t)) => (Terminator.mem_check hg).1
  have hdeclaration (r : Rule) := countRule_of_forall (r := r) fun g
    (hg : g ∈ Declaration.check dialect w (.ofText t)) => (Declaration.mem_check hg).1
  obtain ⟨misplaced, hwrapper⟩ := Wrapper.countRule_check dialect w (.ofText t) r
  rw [hcode, Text.length_wordOffsets ho, Text.length_wordOffsets hc, hks] at hwrapper
  rw [analyze, Document.diagnostics, countRule_append, countRule_append, countRule_append, hwrapper,
    hbracket, hterminator, hdeclaration]
  simp only [tokenRules, List.mem_cons, List.not_mem_nil, or_false] at hr
  rcases hr with rfl | rfl | rfl | rfl | rfl <;> simp [numberOf]

/-! ## 4. Deleting a duplicate -/

theorem count_append_word (w u : Text) (ks ls : List Token) :
    (ks ++ .word w :: ls).count (.word u) =
      (ks ++ ls).count (.word u) + if w = u then 1 else 0 := by
  rw [List.count_append, List.count_cons, List.count_append, Nat.add_assoc]
  simp

/-- The words of which there can be duplicates are the two of the wrapper. -/
theorem isRun_of_mem {dialect : Dialect} (ho : IsRun dialect.openWrapper)
    (hc : IsRun dialect.closeWrapper) {rule : Rule} {word : Text}
    (h : (rule, word) ∈ [(Rule.duplicateOpenWrapper, dialect.openWrapper),
      (.duplicateCloseWrapper, dialect.closeWrapper)]) : IsRun word := by
  simp only [List.mem_cons, List.not_mem_nil, or_false, Prod.mk.injEq] at h
  rcases h with ⟨-, rfl⟩ | ⟨-, rfl⟩
  · exact ho
  · exact hc

/-- **Without one of several occurrences of a wrapper word there is one duplicate less**, and as
many of the other diagnostics about brackets and missing or duplicate words. -/
theorem countRule_without {dialect : Dialect} (ho : IsRun dialect.openWrapper)
    (hc : IsRun dialect.closeWrapper) (hne : dialect.openWrapper ≠ dialect.closeWrapper)
    (w : Wording) {t word : Text} {rule : Rule} {n : Nat}
    (hword : (rule, word) ∈ [(.duplicateOpenWrapper, dialect.openWrapper),
      (.duplicateCloseWrapper, dialect.closeWrapper)])
    (hn : StandsWhole 0 (masked t) word n) (hpos : 0 < countRule rule (analyze dialect w t))
    (hjoin : ¬ Mask.JoinsComment (t.take n) (t.drop (n + word.length))) {r : Rule}
    (hr : r ∈ tokenRules) :
    countRule r (analyze dialect w (t.take n ++ t.drop (n + word.length))) +
      (if rule = r then 1 else 0) = countRule r (analyze dialect w t) := by
  have hrun := isRun_of_mem ho hc hword
  simp only [List.mem_cons, List.not_mem_nil, or_false, Prod.mk.injEq] at hword
  have hrule : rule ∈ tokenRules := by
    rcases hword with ⟨rfl, -⟩ | ⟨rfl, -⟩ <;> decide
  obtain ⟨ks, ls, hbefore, hafter⟩ := tokens_without hrun hn hjoin
  rw [countRule_analyze ho hc w hbefore hrule] at hpos
  rw [countRule_analyze ho hc w hbefore hr, countRule_analyze ho hc w hafter hr,
    Bracket.faultCount_append_word]
  rw [count_append_word, count_append_word] at hpos ⊢
  simp only [tokenRules, List.mem_cons, List.not_mem_nil, or_false] at hr
  -- As there is a duplicate, the word stands somewhere else, too.
  rcases hword with ⟨rfl, rfl⟩ | ⟨rfl, rfl⟩
  · rw [if_pos rfl, if_neg hne] at hpos ⊢
    simp only [numberOf] at hpos
    rcases hr with rfl | rfl | rfl | rfl | rfl <;> simp only [numberOf, reduceCtorEq, reduceIte] <;>
      omega
  · rw [if_pos rfl, if_neg hne.symm] at hpos ⊢
    simp only [numberOf] at hpos
    rcases hr with rfl | rfl | rfl | rfl | rfl <;> simp only [numberOf, reduceCtorEq, reduceIte] <;>
      omega

open QuickFix (forText fixesFor)

/-- The fix for a diagnostic that can be removed on its own is among those for all diagnostics, and
is the only one for it. -/
theorem QuickFix.forText_of_fixesFor {dialect : Dialect} {w : Wording} {t : Text} {g : Diagnostic}
    {f : QuickFix} (hg : g ∈ analyze dialect w t) (hown : isOwn g = true)
    (hf : fixesFor dialect w (.ofText t) g = [f]) :
    (∃ fixes, forText dialect w t (analyze dialect w t) = .ok fixes ∧ f ∈ fixes) ∧
      forText dialect w t [g] = .ok [f] := by
  have hlines : ∀ g ∈ analyze dialect w t, (Document.ofText t).HasLines g.range :=
    fun g hg => Document.hasLines_of_mem_diagnostics hg
  constructor
  · refine ⟨_, forText_eq_ok dialect w hlines, List.mem_append_left _ ?_⟩
    exact List.mem_flatMap.mpr ⟨g, hg, hf ▸ List.mem_cons_self⟩
  · have hnot {r : Rule} (hr : ownTitle? r = none) : [g].any (·.rule == some r) = false := by
      rw [List.any_eq_false]
      intro g' hg' heq
      obtain rfl := List.mem_singleton.mp hg'
      rw [isOwn, beq_iff_eq.mp heq, Option.bind_some, hr] at hown
      cases hown
    rw [forText_eq_ok dialect w (List.forall_mem_singleton.mpr (hlines g hg)), hnot rfl, hnot rfl,
      List.flatMap_singleton, hf]
    rfl

/-- **Deleting a duplicate of the wrapper makes progress**, unless it stands between a slash and one
of the characters that open a comment behind a slash.  The fix for the diagnostic is offered and can
be made, and then there is one diagnostic less about the same rule, and as many as before about the
other duplicates, about missing words of the wrapper, and about brackets.

Everything behind the place is read anew, and nothing says at first that it is read as before:
literals could open and close otherwise from there on.  That the word is shown is what settles it
(`tokens_without`). -/
theorem removing_duplicate_progresses (w : Wording) {t : Text} {g : Diagnostic}
    (hg : g ∈ analyze .standard w t)
    (hrule : g.rule = some .duplicateOpenWrapper ∨ g.rule = some .duplicateCloseWrapper)
    (hjoin : ¬ Mask.JoinsComment (t.take ((Document.ofText t).offsetAt g.range.start))
      (t.drop ((Document.ofText t).offsetAt g.range.stop))) :
    ∃ f u, (∃ fixes, forText .standard w t (analyze .standard w t) = .ok fixes ∧ f ∈ fixes) ∧
      forText .standard w t [g] = .ok [f] ∧ Edit.applyAll t f.edits = .ok u ∧
      ∀ r ∈ [Rule.noOpenWrapper, .noCloseWrapper, .duplicateOpenWrapper, .duplicateCloseWrapper,
          .unbalancedBracket],
        countRule r (analyze .standard w u) + (if g.rule = some r then 1 else 0) =
          countRule r (analyze .standard w t) := by
  have ho : IsRun Dialect.standard.openWrapper := by decide
  have hc : IsRun Dialect.standard.closeWrapper := by decide
  have hown : QuickFix.isOwn g = true := by
    rcases hrule with hrule | hrule <;> rw [QuickFix.isOwn, hrule] <;> rfl
  obtain ⟨f, hf, hoffers⟩ := QuickFix.offers_of_mem_analyze (by decide) (by decide) hg hown
  obtain ⟨u, happly, hrepairs⟩ := hoffers.applies
  obtain ⟨hall, hone⟩ := QuickFix.forText_of_fixesFor hg hown hf
  refine ⟨f, u, hall, hone, happly, ?_⟩
  cases hrepairs with
  | terminator h _ _ _ _ | unused h _ _ _ _ _ =>
    rw [h] at hrule
    rcases hrule with hrule | hrule <;> cases hrule
  | @duplicate rule word o h hword hmem hrange =>
    have hrun := isRun_of_mem ho hc hword
    have hstands : StandsWhole 0 (masked t) word o := (Text.mem_wordOffsets_iff hrun _ _).mp hmem
    have hcovers := Document.covers_spanAt_of_standsWhole hrun hstands
    rw [← hrange] at hcovers
    rw [hcovers.start, hcovers.stop] at hjoin
    have hpos : 0 < countRule rule (analyze .standard w t) := by
      refine List.countP_pos_iff.mpr ⟨g, hg, ?_⟩
      rw [h]
      exact beq_self_eq_true _
    intro r hr
    rw [h]
    simp only [Option.some.injEq]
    exact countRule_without ho hc (by decide) w hword hstands hpos hjoin hr

/-- A slash in front of the word does no harm when a blank stands behind it. -/
theorem removing_duplicate_progresses_slash :
    let t := "Focus [ x /Focus 2 ] Relax".toList
    let d := Document.ofText t
    let g := Wrapper.errorAt .standard d .duplicateOpenWrapper .duplicateOpenWrapper
      Dialect.standard.openWrapper 11
    (g ∈ analyze .standard .standard t ∧
        (g.rule = some .duplicateOpenWrapper ∨ g.rule = some .duplicateCloseWrapper) ∧
        ¬ Mask.JoinsComment (t.take (d.offsetAt g.range.start)) (t.drop (d.offsetAt g.range.stop))) ∧
      ∃ f u, forText .standard .standard t [g] = .ok [f] ∧ Edit.applyAll t f.edits = .ok u ∧
        countRule .duplicateOpenWrapper (analyze .standard .standard u) + 1 =
          countRule .duplicateOpenWrapper (analyze .standard .standard t) := by
  intro t d g
  have hcheck : g ∈ Wrapper.check .standard .standard d := by decide +kernel
  have hg : g ∈ analyze .standard .standard t :=
    List.mem_append_left _ (List.mem_append_left _ (List.mem_append_left _ hcheck))
  have hjoin : ¬ Mask.JoinsComment (t.take (d.offsetAt g.range.start))
      (t.drop (d.offsetAt g.range.stop)) := by
    rintro ⟨-, hhead⟩
    exact absurd hhead (by decide +kernel)
  obtain ⟨f, u, -, hone, happly, hcount⟩ :=
    removing_duplicate_progresses .standard hg (Or.inl rfl) hjoin
  exact ⟨⟨hg, Or.inl rfl, hjoin⟩, f, u, hone, happly, hcount .duplicateOpenWrapper (by decide)⟩

end HypnoScript
