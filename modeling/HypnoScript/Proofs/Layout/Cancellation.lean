/-
# What is left of the braces of a line

Of some code only the braces are kept, and then an opening brace is cancelled with the closing one
right behind it, again and again.  Whichever pairs are taken, this comes to an end, and always with
the same word: some closing braces, and some opening ones behind them.  The shape of a line counts
both (`reduced_braces`): the closing ones are its leading and its unmatched closers, the opening
ones are those that it leaves open.

A tally stands for such a word (`Tally.word`).  Two facts carry the proof: reading one brace more is
cancelling one pair or none (`Tally.reduces_step`), so the word of the tally can be reached; and a
tally does not see a pair that is cancelled (`foldl_step_of_cancels`), so no other word can be left.
-/
import Mathlib.Logic.Relation
import HypnoScript.Proofs.Layout.Shape

namespace HypnoScript
namespace LineShape

/-! ## 1. Cancelling pairs of braces -/

/-- The two braces. -/
def isBrace (c : Char) : Bool := c == '{' || c == '}'

/-- The braces of some code. -/
def braces (code : Text) : Text := code.filter isBrace

/-- One pair is cancelled: an opening brace, and the closing one right behind it. -/
inductive Cancels : Text → Text → Prop
  | pair (u v : Text) : Cancels (u ++ '{' :: '}' :: v) (u ++ v)

/-- Any number of pairs are cancelled, one after the other. -/
def Reduces : Text → Text → Prop := Relation.ReflTransGen Cancels

/-- Cancelling pairs until there are none can leave this word. -/
structure Leaves (t w : Text) : Prop where
  reduces : Reduces t w
  done : ∀ v, ¬ Cancels w v

variable {t u w : Text} {c : Char}

theorem Cancels.append (h : Cancels t u) (v : Text) : Cancels (t ++ v) (u ++ v) := by
  cases h with
  | pair a b =>
    rw [List.append_assoc, List.append_assoc]
    exact .pair a (b ++ v)

theorem Cancels.mem (h : Cancels t u) (hc : c ∈ u) : c ∈ t := by
  cases h with
  | pair a b =>
    rcases List.mem_append.mp hc with ha | hb
    · exact List.mem_append_left _ ha
    · exact List.mem_append_right _ (List.mem_cons_of_mem _ (List.mem_cons_of_mem _ hb))

theorem Cancels.length_lt (h : Cancels t u) : u.length < t.length := by
  cases h with
  | pair a b =>
    rw [List.length_append, List.length_append, List.length_cons, List.length_cons]
    omega

/-- Every pair makes the word shorter, so cancelling comes to an end. -/
theorem acc_cancels (t : Text) : Acc (fun v u => Cancels u v) t :=
  (Subrelation.wf (fun h => Cancels.length_lt h) (measure List.length).wf).apply t

theorem Reduces.append (h : Reduces t u) (v : Text) : Reduces (t ++ v) (u ++ v) :=
  Relation.ReflTransGen.lift (· ++ v) (fun _ _ (h : Cancels _ _) => h.append v) _ _ h

theorem Reduces.mem (h : Reduces t u) (hc : c ∈ u) : c ∈ t := by
  induction h with
  | refl => exact hc
  | tail _ h ih => exact ih (h.mem hc)

theorem Leaves.eq_of_reduces {v : Text} (h : Leaves t w) (hw : Reduces w v) : v = w :=
  (Relation.reflTransGen_iff_eq h.done).mp hw

/-! ## 2. One character more -/

theorem brace_cases (c : Char) : c = '{' ∨ c = '}' ∨ isBrace c = false := by
  by_cases ho : c = '{'
  · exact Or.inl ho
  · by_cases hc : c = '}'
    · exact Or.inr (Or.inl hc)
    · exact Or.inr (Or.inr (by simp [isBrace, ho, hc]))

/-- The openers of groups in some code less the closers. -/
def groupsOf (code : Text) : Int :=
  (code.count '(' + code.count '[') - (code.count ')' + code.count ']')

theorem groupsOf_cons (c : Char) (t : Text) : groupsOf (c :: t) = groupsOf [c] + groupsOf t := by
  simp only [groupsOf, List.count_cons, List.count_nil]
  omega

namespace Tally

/-- A character that is no brace counts for the groups alone. -/
theorem step_other (h : isBrace c = false) (tally : Tally) :
    tally.step c = { tally with groups := tally.groups + groupsOf [c] } := by
  rw [isBrace, Bool.or_eq_false_iff, beq_eq_false_iff_ne, beq_eq_false_iff_ne] at h
  rw [step, if_neg h.1, if_neg h.2]
  by_cases hopener : c = '(' ∨ c = '['
  · rw [if_pos hopener]
    rcases hopener with rfl | rfl <;> rfl
  · rw [if_neg hopener]
    by_cases hcloser : c = ')' ∨ c = ']'
    · rw [if_pos hcloser]
      rcases hcloser with rfl | rfl <;> rfl
    · rw [if_neg hcloser]
      rw [not_or] at hopener hcloser
      have hnone : groupsOf [c] = 0 := by simp [groupsOf, hopener, hcloser]
      rw [hnone, Int.add_zero]

theorem groups_step (tally : Tally) (c : Char) :
    (tally.step c).groups = tally.groups + groupsOf [c] := by
  rcases brace_cases c with rfl | rfl | h
  · exact (Int.add_zero _).symm
  · obtain ⟨opened, unmatched, groups⟩ := tally
    cases opened <;> exact (Int.add_zero _).symm
  · rw [step_other h]

/-- An opening brace and the closing one right behind it are not seen. -/
theorem step_pair (tally : Tally) : (tally.step '{').step '}' = tally := rfl

/-- The tally behind more closing braces, which nothing behind them can match. -/
def behind (closers : Nat) (tally : Tally) : Tally :=
  { tally with unmatched := closers + tally.unmatched }

theorem step_behind (closers : Nat) (tally : Tally) (c : Char) :
    (tally.behind closers).step c = (tally.step c).behind closers := by
  rcases brace_cases c with rfl | rfl | h
  · rfl
  · obtain ⟨opened, unmatched, groups⟩ := tally
    cases opened <;> rfl
  · rw [step_other h, step_other h]
    rfl

end Tally

/-! ## 3. The word of a tally -/

namespace Tally

/-- What is left of the braces that a tally has met. -/
def word (tally : Tally) : Text :=
  List.replicate tally.unmatched '}' ++ List.replicate tally.opened '{'

/-- No closing brace of the word stands behind an opening one. -/
theorem pairwise_word (tally : Tally) : tally.word.Pairwise fun a b => a = '{' → b ≠ '}' := by
  refine List.pairwise_append.mpr ⟨?_, ?_, fun a ha b _ h => ?_⟩
  · exact List.pairwise_replicate.mpr (Or.inr (by decide))
  · exact List.pairwise_replicate.mpr (Or.inr (by decide))
  · exact absurd (h.symm.trans (List.eq_of_mem_replicate ha)) (by decide)

theorem not_cancels_word (tally : Tally) (v : Text) : ¬ Cancels tally.word v := by
  intro h
  have hpairwise := tally.pairwise_word
  generalize tally.word = w at h hpairwise
  cases h with
  | pair a b =>
    have hpair := (List.pairwise_append.mp hpairwise).2.1
    exact List.rel_of_pairwise_cons hpair List.mem_cons_self rfl rfl

/-- **Reading one brace more is cancelling one pair or none.**  A closing brace takes one of the
opening braces at the end of the word, if there is one; all others are appended. -/
theorem reduces_step (tally : Tally) (h : isBrace c = true) :
    Reduces (tally.word ++ [c]) (tally.step c).word := by
  obtain ⟨opened, unmatched, groups⟩ := tally
  rcases brace_cases c with rfl | rfl | hother
  · have hword : word ⟨opened, unmatched, groups⟩ ++ ['{'] =
        word (step ⟨opened, unmatched, groups⟩ '{') := by
      rw [word, List.append_assoc, ← List.replicate_succ']
      rfl
    rw [hword]
    exact .refl
  · cases opened with
    | zero =>
      -- nothing is open, so the word has closers alone, and this one joins them
      have hword : word ⟨0, unmatched, groups⟩ ++ ['}'] =
          word (step ⟨0, unmatched, groups⟩ '}') := by
        rw [word, List.replicate_zero, List.append_nil, ← List.replicate_succ']
        exact (List.append_nil _).symm
      rw [hword]
      exact .refl
    | succ opened =>
      have hword : word ⟨opened + 1, unmatched, groups⟩ ++ ['}'] =
          word ⟨opened, unmatched, groups⟩ ++ ['{', '}'] := by
        rw [word, List.replicate_succ', word, List.append_assoc, List.append_assoc,
          List.append_assoc]
        rfl
      rw [hword]
      have hpair := Cancels.pair (word ⟨opened, unmatched, groups⟩) []
      rw [List.append_nil] at hpair
      exact .single hpair
  · exact absurd (h.symm.trans hother) (by decide)

end Tally

/-! ## 4. What is left of some code -/

/-- The tally of some code. -/
def tallyOf (code : Text) : Tally := code.foldl Tally.step ⟨0, 0, 0⟩

/-- A tally stands for the braces in front of the code. -/
theorem reduces_foldl_step (code : Text) : ∀ tally : Tally,
    Reduces (tally.word ++ braces code) (code.foldl Tally.step tally).word := by
  induction code with
  | nil =>
    intro tally
    rw [braces, List.filter_nil, List.append_nil]
    exact .refl
  | cons c code ih =>
    intro tally
    rw [List.foldl_cons]
    cases hc : isBrace c with
    | true =>
      have hstep := (tally.reduces_step hc).append (braces code)
      rw [List.append_assoc, List.singleton_append] at hstep
      rw [braces, List.filter_cons_of_pos hc]
      exact hstep.trans (ih (tally.step c))
    | false =>
      have hword : (tally.step c).word = tally.word := by
        rw [Tally.step_other hc]
        rfl
      rw [braces, List.filter_cons_of_neg (Bool.eq_false_iff.mp hc), ← hword]
      exact ih (tally.step c)

/-- Cancelling can leave the word of the tally. -/
theorem leaves_word_tallyOf (code : Text) : Leaves (braces code) (tallyOf code).word :=
  ⟨reduces_foldl_step code ⟨0, 0, 0⟩, (tallyOf code).not_cancels_word⟩

/-- **A tally does not see a pair that is cancelled**, wherever it stands: the opening brace of the
pair is open when the closing one is read, which then closes that one and no other. -/
theorem foldl_step_of_cancels (h : Cancels t u) (tally : Tally) :
    t.foldl Tally.step tally = u.foldl Tally.step tally := by
  cases h with
  | pair a b =>
    rw [List.foldl_append, List.foldl_append, List.foldl_cons, List.foldl_cons, Tally.step_pair]

theorem tallyOf_of_reduces (h : Reduces t u) : tallyOf t = tallyOf u := by
  induction h with
  | refl => rfl
  | tail _ h ih => exact ih.trans (foldl_step_of_cancels h ⟨0, 0, 0⟩)

/-- What cancelling leaves of some braces is the word of their tally: it is the word of its own one,
and cancelling has not changed that. -/
theorem Leaves.eq_word (h : Leaves t w) (hbraces : ∀ c ∈ t, isBrace c = true) :
    w = (tallyOf t).word := by
  have hw : braces w = w := List.filter_eq_self.mpr fun c hc => hbraces c (h.reduces.mem hc)
  have hreduces := (leaves_word_tallyOf w).reduces
  rw [hw] at hreduces
  rw [tallyOf_of_reduces h.reduces]
  exact (h.eq_of_reduces hreduces).symm

/-- **Cancelling leaves the word of the tally and no other.**  The word can be reached, as each step
of the tally is a cancellation.  Any other word that is left has the same tally, and a word from
which nothing can be cancelled is the word of its tally. -/
theorem leaves_braces_iff (code w : Text) :
    Leaves (braces code) w ↔ w = (tallyOf code).word := by
  have hbraces : ∀ c ∈ braces code, isBrace c = true := fun c hc => (List.mem_filter.mp hc).2
  have hword := leaves_word_tallyOf code
  constructor
  · intro h
    -- both words are that of the tally of the braces, which does not count the groups
    rw [h.eq_word hbraces, ← hword.eq_word hbraces]
  · rintro rfl
    exact hword

/-- Only the pair in the middle goes: nothing cancels a closing brace in front of its opener. -/
example : Leaves (braces "\x7d (\x7b x \x7d) \x7b".toList) ['}', '{'] :=
  (leaves_braces_iff _ _).mpr (by decide)

/-! ## 5. The tally of a line -/

theorem inLead_iff : inLead c = true ↔ c = '}' ∨ c = ' ' ∨ c = '\t' := by
  rw [inLead, Bool.or_eq_true, Bool.or_eq_true, beq_iff_eq, beq_iff_eq, beq_iff_eq, or_assoc]

theorem foldl_step_of_blank (ht : ∀ c ∈ t, Text.isBlank c = true) (tally : Tally) :
    t.foldl Tally.step tally = tally := by
  induction t with
  | nil => rfl
  | cons c t ih =>
    obtain ⟨hc, ht⟩ := List.forall_mem_cons.mp ht
    rw [List.foldl_cons, step_of_isBlank hc, ih ht]

/-- Blanks at the ends of the code are not counted. -/
theorem tallyOf_trim (code : Text) : tallyOf code.trim = tallyOf code := by
  obtain ⟨s, u, hcode, hs, hu, -⟩ := Text.trim_parts code
  conv_rhs => rw [hcode]
  rw [tallyOf, tallyOf, List.foldl_append, List.foldl_append, foldl_step_of_blank hs,
    foldl_step_of_blank hu]

theorem foldl_step_behind (closers : Nat) (t : Text) : ∀ tally : Tally,
    t.foldl Tally.step (tally.behind closers) = (t.foldl Tally.step tally).behind closers := by
  induction t with
  | nil => exact fun _ => rfl
  | cons c t ih =>
    intro tally
    rw [List.foldl_cons, List.foldl_cons, Tally.step_behind, ih]

theorem groups_foldl_step (t : Text) : ∀ tally : Tally,
    (t.foldl Tally.step tally).groups = tally.groups + groupsOf t := by
  induction t with
  | nil => exact fun tally => (Int.add_zero _).symm
  | cons c t ih =>
    intro tally
    rw [List.foldl_cons, ih, Tally.groups_step, groupsOf_cons c t, Int.add_assoc]

/-- Nothing is open among the leading closers, so none of them matches. -/
theorem foldl_step_lead (t : Text) (hlead : ∀ c ∈ t, inLead c = true) : ∀ unmatched : Nat,
    t.foldl Tally.step ⟨0, unmatched, 0⟩ = ⟨0, unmatched + t.count '}', 0⟩ := by
  induction t with
  | nil => exact fun _ => rfl
  | cons c t ih =>
    intro unmatched
    obtain ⟨hc, ht⟩ := List.forall_mem_cons.mp hlead
    rw [List.foldl_cons]
    rcases inLead_iff.mp hc with rfl | hgap
    · rw [List.count_cons_self, Nat.add_comm (t.count _), ← Nat.add_assoc]
      exact ih ht (unmatched + 1)
    · have hblank : Text.isBlank c = true := by rcases hgap with rfl | rfl <;> decide
      have hne : c ≠ '}' := by rcases hgap with rfl | rfl <;> decide
      rw [step_of_isBlank hblank, List.count_cons_of_ne hne]
      exact ih ht unmatched

/-- **The counts of a shape are the tally of all its code.**  A shape counts the leading closers
first, and the rest of the code from scratch.  Nothing is open where the rest starts, so it makes no
difference. -/
theorem tallyOf_code (line code : Text) :
    let s := LineShape.of line code
    tallyOf code = ⟨s.opened, s.leadingClosers + s.unmatchedClosers, s.openGroups⟩ := by
  intro s
  have hlead : (code.trim.takeWhile inLead).foldl Tally.step ⟨0, 0, 0⟩ =
      Tally.behind s.leadingClosers ⟨0, 0, 0⟩ := by
    rw [foldl_step_lead _ (fun _ hc => List.mem_takeWhile_imp hc), Nat.zero_add]
    rfl
  have hsplit : tallyOf code = (code.trim.dropWhile inLead).foldl Tally.step
      ((code.trim.takeWhile inLead).foldl Tally.step ⟨0, 0, 0⟩) := by
    rw [← List.foldl_append, List.takeWhile_append_dropWhile, ← tallyOf_trim, tallyOf]
  rw [hsplit, hlead, foldl_step_behind]
  rfl

/-! ## 6. What a shape tells of its code -/

/-- The longest start of a text that consists of such characters. -/
structure LongestStart (p : Char → Prop) (t u : Text) : Prop where
  isStart : u <+: t
  forall_mem : ∀ c ∈ u, p c
  longest : ∀ v, v <+: t → (∀ c ∈ v, p c) → v <+: u

theorem longestStart_takeWhile {p : Char → Prop} {q : Char → Bool} (h : ∀ {c}, q c = true ↔ p c)
    (t : Text) : LongestStart p t (t.takeWhile q) where
  isStart := List.takeWhile_prefix q
  forall_mem _ hc := h.mp (List.mem_takeWhile_imp hc)
  longest v hv hp := by
    obtain ⟨w, rfl⟩ := hv
    rw [List.takeWhile_append_of_pos fun c hc => h.mpr (hp c hc)]
    exact List.prefix_append v _

/-- **The shape of a line counts what is left of its braces when pairs are cancelled.**  However
they are cancelled, this comes to an end, and what is left in the end are the leading and the
unmatched closers and, behind them, the opening braces that are left open.  The leading closers are
those at the start of the code, with nothing but spaces and tabs between them, and the groups are
counted in all the code. -/
theorem reduced_braces (line code : Text) :
    let s := LineShape.of line code
    (∀ w, Leaves (braces code) w ↔
      w = List.replicate (s.leadingClosers + s.unmatchedClosers) '}' ++
        List.replicate s.opened '{') ∧
    Acc (fun v u => Cancels u v) (braces code) ∧
    (∃ lead, LongestStart (fun c => c = '}' ∨ c = ' ' ∨ c = '\t') code.trim lead ∧
      s.leadingClosers = lead.count '}') ∧
    s.openGroups = (code.count '(' + code.count '[' : Int) - (code.count ')' + code.count ']') := by
  intro s
  have htally := tallyOf_code line code
  refine ⟨fun w => ?_, acc_cancels _, ?_, ?_⟩
  · rw [leaves_braces_iff, htally]
    rfl
  · exact ⟨code.trim.takeWhile inLead, longestStart_takeWhile inLead_iff _, rfl⟩
  · calc s.openGroups = (tallyOf code).groups := (congrArg Tally.groups htally).symm
      _ = 0 + groupsOf code := groups_foldl_step code ⟨0, 0, 0⟩
      _ = groupsOf code := Int.zero_add _

end LineShape
end HypnoScript
