/-
# Texts without errors

A text is well formed when, outside of its literals and comments, each word of the wrapper stands
exactly once, the opening one in front of the closing one, and the brackets are well nested
(`WellFormed`).  The analysis finds an error just when a text is not well formed, whatever else it
reports (`exists_error_iff`): missing terminators are warnings, and unused variables are hints.
-/
import HypnoScript.Proofs.Analysis.Dyck
import HypnoScript.Proofs.Analysis.Ranges

namespace HypnoScript

open Text (IsRun headIsWord lastIsWord leadingWord placed wordOffsets isWord)

/-! ## 1. Whole words -/

/-- A word stands at an offset as a whole, when the text starts at offset `o`: no word character
stands right before it, and none right behind it. -/
def Text.StandsWhole (o : Nat) (t w : Text) (n : Nat) : Prop :=
  ∃ p q, t = p ++ (w ++ q) ∧ o + p.length = n ∧ lastIsWord false p = false ∧ headIsWord q = false

namespace Text

variable {w t u : Text}

theorem headIsWord_run_append (hw : IsRun w) (q : Text) : headIsWord (w ++ q) = true := by
  obtain ⟨c, w, rfl⟩ := List.exists_cons_of_ne_nil hw.1
  exact hw.2 c List.mem_cons_self

/-- No word stands at a character that is none of a word. -/
theorem standsWhole_cons (hw : IsRun w) {c : Char} (hc : isWord c = false) (o n : Nat) :
    StandsWhole o (c :: t) w n ↔ StandsWhole (o + 1) t w n := by
  constructor
  · rintro ⟨p, q, ht, hn, hp, hq⟩
    cases p with
    | nil =>
      have hword := headIsWord_run_append hw q
      rw [← List.nil_append (w ++ q), ← ht] at hword
      exact absurd hword (by simp [headIsWord, hc])
    | cons d p =>
      obtain ⟨rfl, rfl⟩ := List.cons.inj ht
      rw [lastIsWord_cons, hc] at hp
      rw [List.length_cons] at hn
      exact ⟨p, q, rfl, by omega, hp, hq⟩
  · rintro ⟨p, q, rfl, hn, hp, hq⟩
    refine ⟨c :: p, q, rfl, ?_, ?_, hq⟩
    · rw [List.length_cons]
      omega
    · rw [lastIsWord_cons, hc, hp]

/-- At most one word stands at a place. -/
theorem StandsWhole.unique {o n : Nat} (hw : IsRun w) (hu : IsRun u) (h : StandsWhole o t w n)
    (h' : StandsWhole o t u n) : w = u := by
  obtain ⟨p, q, hp, hn, -, hq⟩ := h
  obtain ⟨p', q', hp', hn', -, hq'⟩ := h'
  have hrest : w ++ q = u ++ q' := (List.append_inj (hp.symm.trans hp') (by omega)).2
  rw [← leadingWord_append_run hw.2 hq, hrest, leadingWord_append_run hu.2 hq']

/-- Within a whole word no other one stands. -/
theorem standsWhole_append (hw : IsRun w) (hu : IsRun u) (ht : headIsWord t = false) (o n : Nat) :
    StandsWhole o (u ++ t) w n ↔ (u = w ∧ o = n) ∨ StandsWhole (o + u.length) t w n := by
  constructor
  · rintro ⟨p, q, heq, hn, hp, hq⟩
    rcases List.append_eq_append_iff.mp heq with ⟨a, rfl, ha⟩ | ⟨a, rfl, ha⟩
    · -- The word stands behind `u`, and not right behind it.
      right
      rw [lastIsWord_append, lastIsWord_of_isRun hu] at hp
      rw [List.length_append] at hn
      refine ⟨a, q, ha, by omega, ?_, hq⟩
      cases a with
      | nil => cases hp
      | cons d a => rwa [lastIsWord_cons] at hp ⊢
    · -- The word starts inside `u`, so at its start.
      left
      cases p with
      | nil =>
        rw [List.nil_append] at hu
        have hlead : leadingWord (w ++ q) = leadingWord (a ++ t) := by rw [ha]
        rw [leadingWord_append_run hw.2 hq, leadingWord_append_run hu.2 ht] at hlead
        exact ⟨hlead.symm, hn⟩
      | cons d p =>
        have hrun : IsRun (d :: p) :=
          ⟨List.cons_ne_nil d p, fun c hc => hu.2 c (List.mem_append_left _ hc)⟩
        rw [lastIsWord_of_isRun hrun] at hp
        cases hp
  · rintro (⟨rfl, rfl⟩ | ⟨p, q, rfl, hn, hp, hq⟩)
    · exact ⟨[], t, rfl, rfl, rfl, ht⟩
    · refine ⟨u ++ p, q, (List.append_assoc ..).symm, ?_, ?_, hq⟩
      · rw [List.length_append]
        omega
      · cases p with
        | nil =>
          rw [List.nil_append, headIsWord_run_append hw] at ht
          cases ht
        | cons d p => rwa [lastIsWord_append, lastIsWord_cons, ← lastIsWord_cons false]

/-- The words among the tokens are those that stand as a whole. -/
theorem word_mem_placed_iff (hw : IsRun w) (t : Text) : ∀ {o n : Nat},
    (.word w, n) ∈ placed o t ↔ StandsWhole o t w n := by
  induction t using token_induction with
  | nil =>
    intro o n
    refine iff_of_false List.not_mem_nil ?_
    rintro ⟨p, q, ht, -⟩
    exact hw.1 (List.append_eq_nil_iff.mp (List.append_eq_nil_iff.mp ht.symm).2).1
  | blank c t hb ih =>
    intro o n
    rw [placed_blank_cons hb, standsWhole_cons hw (isWord_eq_false_of_isBlank hb), ih]
  | sign c t hc hb ih =>
    intro o n
    rw [placed_sign_cons hc hb, standsWhole_cons hw hc, List.mem_cons, ih]
    simp
  | word u t hu ht ih =>
    intro o n
    rw [placed_word_append hu ht, standsWhole_append hw hu ht, List.mem_cons, ih]
    simp [eq_comm]

/-- **A word is found just where it stands as a whole.** -/
theorem mem_wordOffsets_iff (hw : IsRun w) (t : Text) (n : Nat) :
    n ∈ wordOffsets w t ↔ StandsWhole 0 t w n := by
  rw [wordOffsets_eq hw, placesOf, List.mem_filterMap, ← word_mem_placed_iff hw]
  constructor
  · rintro ⟨⟨token, m⟩, hmem, h⟩
    split at h
    · rename_i htoken
      obtain rfl : token = .word w := htoken
      obtain rfl := Option.some.inj h
      exact hmem
    · cases h
  · intro h
    exact ⟨_, h, if_pos rfl⟩

/-- Words are found from the left. -/
theorem pairwise_wordOffsets (hw : IsRun w) (t : Text) :
    (wordOffsets w t).Pairwise (· < ·) := by
  rw [wordOffsets_eq hw, placesOf]
  refine List.Pairwise.filterMap _ ?_ (pairwise_placed t 0)
  intro a b hab m hm n hn
  split at hm
  · split at hn
    · rw [← Option.some.inj hm, ← Option.some.inj hn]
      exact hab
    · cases hn
  · cases hm

theorem nodup_wordOffsets (hw : IsRun w) (t : Text) : (wordOffsets w t).Nodup :=
  (pairwise_wordOffsets hw t).imp Nat.ne_of_lt

theorem wordOffsets_eq_singleton_iff (hw : IsRun w) (t : Text) (i : Nat) :
    wordOffsets w t = [i] ↔ ∀ n, StandsWhole 0 t w n ↔ n = i := by
  rw [← List.perm_singleton, List.perm_ext_iff_of_nodup (nodup_wordOffsets hw t)
    (List.pairwise_singleton _ i)]
  simp only [mem_wordOffsets_iff hw, List.mem_singleton]

end Text

/-! ## 2. What is well formed -/

/-- A text without errors. -/
structure WellFormed (t : Text) : Prop where
  /-- Each word of the wrapper stands once outside of literals and comments, in this order. -/
  wrapped : ∃ i j, i < j ∧ (∀ n, Text.StandsWhole 0 (masked t) "Focus".toList n ↔ n = i) ∧
    ∀ n, Text.StandsWhole 0 (masked t) "Relax".toList n ↔ n = j
  /-- The brackets outside of literals and comments are well nested. -/
  nested : Bracket.Dyck ((masked t).filter Bracket.isBracket)

namespace Wrapper

theorem check_eq_nil_iff {dialect : Dialect} {w : Wording} {d : Document} :
    check dialect w d = [] ↔ ∃ i j, ¬ j < i ∧ wordOffsets dialect.openWrapper d.code = [i] ∧
      wordOffsets dialect.closeWrapper d.code = [j] := by
  simp only [check]
  rcases wordOffsets dialect.openWrapper d.code with _ | ⟨i, _ | ⟨i', is⟩⟩ <;>
    rcases wordOffsets dialect.closeWrapper d.code with _ | ⟨j, _ | ⟨j', js⟩⟩ <;> simp

theorem severity_of_mem_check {dialect : Dialect} {w : Wording} {d : Document} {g : Diagnostic}
    (h : g ∈ check dialect w d) : g.severity = .error := by
  cases reported_of_mem h <;> rfl

/-- The wrapper check is content with a text whose wrapper is in place. -/
theorem check_eq_nil_iff_places {dialect : Dialect} (ho : IsRun dialect.openWrapper)
    (hc : IsRun dialect.closeWrapper) (hne : dialect.openWrapper ≠ dialect.closeWrapper)
    (w : Wording) (t : Text) :
    check dialect w (.ofText t) = [] ↔
      ∃ i j, i < j ∧ (∀ n, Text.StandsWhole 0 (masked t) dialect.openWrapper n ↔ n = i) ∧
        ∀ n, Text.StandsWhole 0 (masked t) dialect.closeWrapper n ↔ n = j := by
  have hcode : (Document.ofText t).code = masked t := rfl
  rw [check_eq_nil_iff, hcode]
  simp only [Text.wordOffsets_eq_singleton_iff ho, Text.wordOffsets_eq_singleton_iff hc]
  refine exists_congr fun i => exists_congr fun j => and_congr_left ?_
  rintro ⟨hi, hj⟩
  -- The two words do not stand at one place.
  have hplaces : i ≠ j := by
    rintro rfl
    exact hne (((hi i).mpr rfl).unique ho hc ((hj i).mpr rfl))
  omega

/-- In the usual dialect, the wrapper is in place when its two words are. -/
theorem check_eq_nil_iff_wrapped (w : Wording) (t : Text) :
    check Dialect.standard w (.ofText t) = [] ↔
      ∃ i j, i < j ∧ (∀ n, Text.StandsWhole 0 (masked t) "Focus".toList n ↔ n = i) ∧
        ∀ n, Text.StandsWhole 0 (masked t) "Relax".toList n ↔ n = j :=
  check_eq_nil_iff_places (by decide) (by decide) (by decide) w t

end Wrapper

namespace Bracket

theorem severity_of_mem_check {w : Wording} {d : Document} {g : Diagnostic}
    (h : g ∈ check w d) : g.severity = .error := by
  obtain ⟨o, -, rfl⟩ := List.mem_map.mp h
  rfl

theorem check_eq_nil_iff_nested (w : Wording) (t : Text) :
    check w (.ofText t) = [] ↔ Dyck ((masked t).filter isBracket) := by
  have hcode : (Document.ofText t).code = masked t := rfl
  have hbrackets : ∀ c ∈ (masked t).filter isBracket, isBracket c = true :=
    fun c hc => (List.mem_filter.mp hc).2
  rw [check, List.map_eq_nil_iff, hcode, faults_eq_nil_iff, dyck_iff_balanced hbrackets,
    Bracket.Balanced, Bracket.Balanced, openBehind_tokens]

end Bracket

theorem Terminator.severity_of_mem_check {dialect : Dialect} {w : Wording} {d : Document}
    {g : Diagnostic} (h : g ∈ check dialect w d) : g.severity = .warning := by
  obtain ⟨n, -, rfl⟩ := List.mem_map.mp h
  rfl

theorem Declaration.severity_of_mem_check {dialect : Dialect} {w : Wording} {d : Document}
    {g : Diagnostic} (h : g ∈ check dialect w d) : g.severity = .hint := by
  obtain ⟨v, -, -, o, -, rfl⟩ := mem_check_iff.mp h
  rfl

/-- **The analysis finds an error just when the text is not well formed.**  Only the wrapper check
and the bracket check report errors, so it is a matter of these two reporting nothing. -/
theorem exists_error_iff (w : Wording) (t : Text) :
    (∃ g ∈ analyze Dialect.standard w t, g.severity = .error) ↔ ¬ WellFormed t := by
  have hwell : WellFormed t ↔ Wrapper.check Dialect.standard w (.ofText t) = [] ∧
      Bracket.check w (.ofText t) = [] := by
    rw [Wrapper.check_eq_nil_iff_wrapped, Bracket.check_eq_nil_iff_nested]
    constructor
    · intro h
      exact ⟨h.wrapped, h.nested⟩
    · intro h
      exact ⟨h.1, h.2⟩
  rw [hwell, not_and_or]
  simp only [analyze, Document.diagnostics, List.mem_append]
  constructor
  · rintro ⟨g, ((hg | hg) | hg) | hg, herror⟩
    · exact Or.inl (List.ne_nil_of_mem hg)
    · exact Or.inr (List.ne_nil_of_mem hg)
    · rw [Terminator.severity_of_mem_check hg] at herror
      cases herror
    · rw [Declaration.severity_of_mem_check hg] at herror
      cases herror
  · rintro (h | h)
    · obtain ⟨g, hg⟩ := List.exists_mem_of_ne_nil _ h
      exact ⟨g, Or.inl (Or.inl (Or.inl hg)), Wrapper.severity_of_mem_check hg⟩
    · obtain ⟨g, hg⟩ := List.exists_mem_of_ne_nil _ h
      exact ⟨g, Or.inl (Or.inl (Or.inr hg)), Bracket.severity_of_mem_check hg⟩

end HypnoScript
