/-
# Partners of brackets

What the bracket check reports can be said without a stack.  An opener and a closer behind it are
*partners* when the brackets between them are matched once their kinds are ignored
(`Bracket.Partners`).  The closers that are reported are those without a partner and those with one
of another kind, and the openers are those without a partner (`faults_exact`).

Two things are counted to see this.  `surplus` tells how many brackets of a text are without a
partner in it.  `reading` tells what the check knows behind a text: its stack, and the closers that
it has reported.  `getElem?_stack_reading_iff` ties them together: an opener lies on the stack with
`k` frames above it just when behind it no closer and exactly `k` openers are without a partner.

Everything is shown by adding one character at the end of the text (`surplus_concat`,
`reading_concat`).
-/
import Mathlib.Data.List.Induction
import HypnoScript.Bracket

namespace HypnoScript
namespace Bracket

/-! ## 1. Partners -/

/-- The brackets of a text are matched when their kinds are ignored. -/
structure Matched (t : Text) : Prop where
  /-- No start of the text has more closers than openers. -/
  opened : ∀ u, u <+: t → u.countP isCloser ≤ u.countP isOpener
  /-- The text has as many closers as openers. -/
  closed : t.countP isCloser = t.countP isOpener

/-- An opener stands at the offset. -/
def OpenerAt (t : Text) (i : Nat) : Prop := ∃ o, t[i]? = some o ∧ isOpener o = true

/-- A closer stands at the offset. -/
def CloserAt (t : Text) (j : Nat) : Prop := ∃ c, t[j]? = some c ∧ isCloser c = true

/-- An opener and a closer behind it, between which the brackets are matched. -/
structure Partners (t : Text) (i j : Nat) : Prop where
  opener : OpenerAt t i
  closer : CloserAt t j
  before : i < j
  between : Matched ((t.take j).drop (i + 1))

/-- The brackets at two offsets are of one kind. -/
def SameKind (t : Text) (i j : Nat) : Prop := ∃ o ∈ t[i]?, closer? o = t[j]?

theorem isCloser_of_isOpener {c : Char} (h : isOpener c = true) : isCloser c = false := by
  simp only [isOpener, Bool.or_eq_true, beq_iff_eq] at h
  rcases h with (rfl | rfl) | rfl <;> decide

/-- A character is an opener, a closer or neither. -/
theorem sides (c : Char) : isOpener c = true ∧ isCloser c = false ∨
    isOpener c = false ∧ isCloser c = true ∨ isOpener c = false ∧ isCloser c = false := by
  cases ho : isOpener c with
  | true => exact Or.inl ⟨rfl, isCloser_of_isOpener ho⟩
  | false =>
    cases isCloser c with
    | true => exact Or.inr (Or.inl ⟨rfl, rfl⟩)
    | false => exact Or.inr (Or.inr ⟨rfl, rfl⟩)

/-! ## 2. Brackets without a partner -/

/-- How many brackets of a text are without a partner in it. -/
structure Surplus where
  closers : Nat
  openers : Nat
  deriving DecidableEq, Repr

/-- The surplus behind one character more. -/
def Surplus.step (s : Surplus) (c : Char) : Surplus :=
  if isOpener c then { s with openers := s.openers + 1 }
  else if isCloser c then
    if s.openers = 0 then { s with closers := s.closers + 1 }
    else { s with openers := s.openers - 1 }
  else s

/-- The brackets of a text that are without a partner in it. -/
def surplus (t : Text) : Surplus := t.foldl Surplus.step ⟨0, 0⟩

@[simp] theorem surplus_nil : surplus [] = ⟨0, 0⟩ := rfl

@[simp] theorem surplus_concat (t : Text) (c : Char) : surplus (t ++ [c]) = (surplus t).step c := by
  rw [surplus, List.foldl_append]
  rfl

namespace Surplus

variable {s : Surplus} {c : Char}

theorem step_opener (h : isOpener c = true) : s.step c = ⟨s.closers, s.openers + 1⟩ := by
  rw [step, if_pos h]

theorem step_closer (h : isCloser c = true) :
    s.step c = if s.openers = 0 then ⟨s.closers + 1, 0⟩ else ⟨s.closers, s.openers - 1⟩ := by
  have ho : ¬ isOpener c = true := by
    intro ho
    rw [isCloser_of_isOpener ho] at h
    cases h
  rw [step, if_neg ho, if_pos h]
  split
  · rename_i hzero
    rw [hzero]
  · rfl

theorem step_other (ho : isOpener c = false) (hc : isCloser c = false) : s.step c = s := by
  rw [step, ho, hc]
  rfl

theorem closers_step_eq_zero_iff :
    (s.step c).closers = 0 ↔ s.closers = 0 ∧ ¬ (isCloser c = true ∧ s.openers = 0) := by
  rcases sides c with ⟨ho, hc⟩ | ⟨ho, hc⟩ | ⟨ho, hc⟩
  · rw [step_opener ho, hc]
    simp
  · rw [step_closer hc]
    split <;> simp [*]
  · rw [step_other ho hc, hc]
    simp

theorem mk_eq_iff {m n : Nat} : s = ⟨m, n⟩ ↔ s.closers = m ∧ s.openers = n := by
  cases s
  rw [mk.injEq]

end Surplus

/-- The surplus is what the counts of closers and openers differ by. -/
theorem countP_surplus (t : Text) :
    t.countP isCloser + (surplus t).openers = t.countP isOpener + (surplus t).closers := by
  induction t using List.reverseRecOn with
  | nil => rfl
  | append_singleton t c ih =>
    rw [surplus_concat, List.countP_append, List.countP_append, List.countP_singleton,
      List.countP_singleton]
    rcases sides c with ⟨ho, hc⟩ | ⟨ho, hc⟩ | ⟨ho, hc⟩ <;>
      simp only [ho, hc, Bool.false_eq_true, if_false, if_true]
    · rw [Surplus.step_opener ho]
      dsimp only
      omega
    · rw [Surplus.step_closer hc]
      split <;> dsimp only <;> omega
    · rw [Surplus.step_other ho hc]
      exact ih

/-- No closer is without a partner just when no start of the text has too many closers. -/
theorem surplus_closers_eq_zero_iff (t : Text) :
    (surplus t).closers = 0 ↔ ∀ u, u <+: t → u.countP isCloser ≤ u.countP isOpener := by
  induction t using List.reverseRecOn with
  | nil =>
    refine iff_of_true rfl fun u hu => ?_
    rw [List.prefix_nil.mp hu]
    exact Nat.le_refl _
  | append_singleton t c ih =>
    have hstarts : (∀ u, u <+: t ++ [c] → u.countP isCloser ≤ u.countP isOpener) ↔
        (t ++ [c]).countP isCloser ≤ (t ++ [c]).countP isOpener ∧
          ∀ u, u <+: t → u.countP isCloser ≤ u.countP isOpener := by
      simp only [List.prefix_concat_iff]
      constructor
      · intro h
        exact ⟨h _ (Or.inl rfl), fun u hu => h u (Or.inr hu)⟩
      · rintro ⟨h, hu⟩ u (rfl | hu')
        · exact h
        · exact hu u hu'
    have hcount := countP_surplus (t ++ [c])
    rw [hstarts, ← ih]
    rw [surplus_concat] at hcount ⊢
    rcases sides c with ⟨ho, hc⟩ | ⟨ho, hc⟩ | ⟨ho, hc⟩
    · rw [Surplus.step_opener ho] at hcount ⊢
      dsimp only at hcount ⊢
      omega
    · rw [Surplus.step_closer hc] at hcount ⊢
      by_cases hempty : (surplus t).openers = 0
      · rw [if_pos hempty] at hcount ⊢
        dsimp only at hcount ⊢
        omega
      · rw [if_neg hempty] at hcount ⊢
        dsimp only at hcount ⊢
        omega
    · rw [Surplus.step_other ho hc] at hcount ⊢
      omega

/-- **Matched brackets are those of which none is without a partner.**  Counted from the left, the
depth is the number of openers that are still without one, and it goes below zero just at a closer
that has none. -/
theorem matched_iff (t : Text) : Matched t ↔ surplus t = ⟨0, 0⟩ := by
  have hcount := countP_surplus t
  rw [Surplus.mk_eq_iff]
  constructor
  · intro h
    have hclosers := (surplus_closers_eq_zero_iff t).mpr h.opened
    have hclosed := h.closed
    omega
  · rintro ⟨hclosers, hopeners⟩
    exact ⟨(surplus_closers_eq_zero_iff t).mp hclosers, by omega⟩

/-- The first closer without a partner has matched brackets before it. -/
theorem surplus_closers_eq_zero_iff_not_exists (t : Text) :
    (surplus t).closers = 0 ↔
      ¬ ∃ m c, t[m]? = some c ∧ isCloser c = true ∧ surplus (t.take m) = ⟨0, 0⟩ := by
  induction t using List.reverseRecOn with
  | nil => simp
  | append_singleton t c ih =>
    rw [surplus_concat, Surplus.closers_step_eq_zero_iff, ih]
    constructor
    · rintro ⟨hbefore, hlast⟩ ⟨m, d, hd, hcloser, hs⟩
      rcases Nat.lt_or_ge m t.length with hm | hm
      · rw [List.getElem?_append_left hm] at hd
        rw [List.take_append_of_le_length (Nat.le_of_lt hm)] at hs
        exact hbefore ⟨m, d, hd, hcloser, hs⟩
      · obtain ⟨rfl, rfl⟩ : m = t.length ∧ c = d := by
          rw [List.getElem?_append_right hm] at hd
          have hlt := (List.getElem?_eq_some_iff.mp hd).1
          rw [List.length_singleton] at hlt
          have hm' : m = t.length := by omega
          rw [hm', Nat.sub_self] at hd
          exact ⟨hm', Option.some.inj hd⟩
        rw [List.take_left' rfl] at hs
        exact hlast ⟨hcloser, by rw [hs]⟩
    · intro h
      have hbefore : ¬ ∃ m d, t[m]? = some d ∧ isCloser d = true ∧
          surplus (t.take m) = ⟨0, 0⟩ := by
        rintro ⟨m, d, hd, hcloser, hs⟩
        have hm : m < t.length := (List.getElem?_eq_some_iff.mp hd).1
        refine h ⟨m, d, ?_, hcloser, ?_⟩
        · rw [List.getElem?_append_left hm, hd]
        · rw [List.take_append_of_le_length (Nat.le_of_lt hm), hs]
      refine ⟨hbefore, ?_⟩
      rintro ⟨hcloser, hopeners⟩
      refine h ⟨t.length, c, List.getElem?_concat_length, hcloser, ?_⟩
      rw [List.take_left' rfl, Surplus.mk_eq_iff]
      exact ⟨ih.mpr hbefore, hopeners⟩

/-! ## 3. What the check knows behind a text -/

/-- What the check knows behind a text. -/
structure Reading where
  /-- The openers that are still open. -/
  stack : List Frame
  /-- The offsets of the closers that it has reported. -/
  faulty : List Nat
  /-- How long the text is. -/
  offset : Nat

/-- The closer fits the topmost opener. -/
def Fits (stack : List Frame) (c : Char) : Prop := ∃ f ∈ stack.head?, closer? f.opener = some c

instance (stack : List Frame) (c : Char) : Decidable (Fits stack c) :=
  match stack with
  | [] => isFalse (by rintro ⟨f, hf, -⟩; cases hf)
  | f :: _ => decidable_of_iff (closer? f.opener = some c)
      ⟨fun h => ⟨f, rfl, h⟩, by rintro ⟨g, hg, h⟩; cases hg; exact h⟩

/-- What the check knows behind one character more. -/
def Reading.step (g : Reading) (c : Char) : Reading :=
  if isOpener c then ⟨⟨c, g.offset⟩ :: g.stack, g.faulty, g.offset + 1⟩
  else if isCloser c then
    ⟨g.stack.tail, if Fits g.stack c then g.faulty else g.faulty ++ [g.offset], g.offset + 1⟩
  else { g with offset := g.offset + 1 }

/-- What the check knows behind a text. -/
def reading (t : Text) : Reading := t.foldl Reading.step ⟨[], [], 0⟩

@[simp] theorem reading_concat (t : Text) (c : Char) : reading (t ++ [c]) = (reading t).step c := by
  rw [reading, List.foldl_append]
  rfl

namespace Reading

variable {g : Reading} {c : Char}

@[simp] theorem step_offset : (g.step c).offset = g.offset + 1 := by
  rw [step]
  split
  · rfl
  · split <;> rfl

theorem step_stack : (g.step c).stack =
    if isOpener c then ⟨c, g.offset⟩ :: g.stack
    else if isCloser c then g.stack.tail else g.stack := by
  rw [step]
  split
  · rfl
  · split <;> rfl

theorem step_faulty : (g.step c).faulty =
    if isCloser c = true ∧ ¬ Fits g.stack c then g.faulty ++ [g.offset] else g.faulty := by
  rw [step]
  rcases sides c with ⟨ho, hc⟩ | ⟨ho, hc⟩ | ⟨ho, hc⟩ <;>
    simp only [ho, hc, Bool.false_eq_true, false_and, true_and, if_false, if_true, ite_not]

end Reading

/-- **The check reads character by character.**  Its recursion reports a closer before it goes on,
and what is left open at the end; so what it returns is what a fold over the characters has
collected. -/
theorem faultsFrom_reading (t : Text) : ∀ g : Reading,
    g.faulty ++ faultsFrom g.stack g.offset t =
      (t.foldl Reading.step g).faulty ++
        (t.foldl Reading.step g).stack.reverse.map Frame.offset := by
  induction t with
  | nil => exact fun _ => rfl
  | cons c t ih =>
    intro g
    rw [List.foldl_cons, ← ih (g.step c), faultsFrom.eq_def]
    dsimp only
    rcases sides c with ⟨ho, hc⟩ | ⟨ho, hc⟩ | ⟨ho, hc⟩ <;>
      simp only [ho, hc, Reading.step, Bool.false_eq_true, if_false, if_true]
    cases hstack : g.stack with
    | nil =>
      have hfits : ¬ Fits [] c := by rintro ⟨f, hf, -⟩; cases hf
      rw [if_neg hfits, List.append_assoc]
      rfl
    | cons f stack =>
      have hfits : Fits (f :: stack) c ↔ closer? f.opener = some c := by simp [Fits]
      simp only [hfits, List.tail_cons]
      split <;> simp

/-- What is reported in the end: the faulty closers, and then the openers that are left. -/
theorem faults_eq_reading (t : Text) :
    faults t = (reading t).faulty ++ (reading t).stack.reverse.map Frame.offset :=
  faultsFrom_reading t ⟨[], [], 0⟩

theorem offset_reading (t : Text) : (reading t).offset = t.length := by
  induction t using List.reverseRecOn with
  | nil => rfl
  | append_singleton t c ih =>
    rw [reading_concat, Reading.step_offset, ih, List.length_append, List.length_singleton]

/-! ## 4. The openers on the stack -/

/-- The frame is an opener of the text, and what is behind it has the surplus. -/
structure StandsBefore (t : Text) (f : Frame) (s : Surplus) : Prop where
  at_offset : t[f.offset]? = some f.opener
  opener : isOpener f.opener = true
  behind : surplus (t.drop (f.offset + 1)) = s

theorem StandsBefore.offset_lt {t : Text} {f : Frame} {s : Surplus} (h : StandsBefore t f s) :
    f.offset < t.length :=
  (List.getElem?_eq_some_iff.mp h.at_offset).1

/-- An opener of a longer text is its last character, or one of the text before. -/
theorem standsBefore_concat {t : Text} {c : Char} {f : Frame} {s : Surplus} :
    StandsBefore (t ++ [c]) f s ↔
      isOpener c = true ∧ f = ⟨c, t.length⟩ ∧ s = ⟨0, 0⟩ ∨
        ∃ s', StandsBefore t f s' ∧ s'.step c = s := by
  constructor
  · intro h
    have hlt := h.offset_lt
    rw [List.length_append, List.length_singleton] at hlt
    rcases Nat.lt_or_ge f.offset t.length with hf | hf
    · refine Or.inr ⟨_, ⟨?_, h.opener, rfl⟩, ?_⟩
      · rw [← List.getElem?_append_left hf, h.at_offset]
      · rw [← surplus_concat, ← List.drop_append_of_le_length (by omega), h.behind]
    · have hf : f.offset = t.length := by omega
      have hc : c = f.opener := by
        have hat := h.at_offset
        rw [hf, List.getElem?_concat_length] at hat
        exact Option.some.inj hat
      refine Or.inl ⟨hc ▸ h.opener, ?_, ?_⟩
      · rw [hc, ← hf]
      · rw [← h.behind, hf, List.drop_of_length_le (by simp)]
        rfl
  · rintro (⟨hc, rfl, rfl⟩ | ⟨s', h, rfl⟩)
    · refine ⟨List.getElem?_concat_length, hc, ?_⟩
      rw [List.drop_of_length_le (by simp)]
      rfl
    · have hlt := h.offset_lt
      refine ⟨?_, h.opener, ?_⟩
      · rw [List.getElem?_append_left hlt, h.at_offset]
      · rw [List.drop_append_of_le_length (by omega), surplus_concat, h.behind]

/-- **An opener is on the stack, with `k` frames above it, just when behind it no closer and `k`
openers are without a partner.**  One more character at the end moves both sides alike: an opener
adds a frame and an opener without a partner, a closer takes one of each, whatever their kinds. -/
theorem getElem?_stack_reading_iff (t : Text) : ∀ (k : Nat) (f : Frame),
    (reading t).stack[k]? = some f ↔ StandsBefore t f ⟨0, k⟩ := by
  induction t using List.reverseRecOn with
  | nil =>
    intro k f
    refine iff_of_false (by simp [reading]) fun h => ?_
    exact absurd h.offset_lt (Nat.not_lt_zero _)
  | append_singleton t c ih =>
    intro k f
    rw [reading_concat, Reading.step_stack, standsBefore_concat, offset_reading]
    rcases sides c with ⟨ho, hc⟩ | ⟨ho, hc⟩ | ⟨ho, hc⟩ <;>
      simp only [ho, hc, Bool.false_eq_true, if_false, if_true, false_and, true_and, false_or]
    · cases k with
      | zero =>
        rw [List.getElem?_cons_zero, Option.some.injEq]
        constructor
        · intro h
          exact Or.inl ⟨h.symm, rfl⟩
        · rintro (⟨h, -⟩ | ⟨s', -, hs⟩)
          · exact h.symm
          · rw [Surplus.step_opener ho] at hs
            exact absurd (congrArg Surplus.openers hs) (Nat.succ_ne_zero _)
      | succ k =>
        rw [List.getElem?_cons_succ, ih k f]
        constructor
        · intro h
          exact Or.inr ⟨_, h, Surplus.step_opener ho⟩
        · rintro (⟨-, hs⟩ | ⟨s', h, hs⟩)
          · cases hs
          · rw [Surplus.step_opener ho] at hs
            have hs' : s' = ⟨0, k⟩ := by
              rw [Surplus.mk_eq_iff] at hs ⊢
              exact ⟨hs.1, Nat.succ.inj hs.2⟩
            exact hs' ▸ h
    · rw [List.getElem?_tail, ih (k + 1) f]
      constructor
      · intro h
        exact ⟨_, h, Surplus.step_closer hc⟩
      · rintro ⟨s', h, hs⟩
        rw [Surplus.step_closer hc] at hs
        have hs' : s' = ⟨0, k + 1⟩ := by
          split at hs
          · exact absurd (congrArg Surplus.closers hs) (Nat.succ_ne_zero _)
          · rw [Surplus.mk_eq_iff] at hs ⊢
            dsimp only at hs
            omega
        exact hs' ▸ h
    · rw [ih k f]
      constructor
      · intro h
        exact ⟨_, h, Surplus.step_other ho hc⟩
      · rintro ⟨s', h, hs⟩
        rw [Surplus.step_other ho hc] at hs
        exact hs ▸ h

/-! ## 5. Partners and the stack -/

/-- Partners of a closer: the opener that lies on top of the stack there. -/
theorem partners_iff {t : Text} {i j : Nat} (hj : CloserAt t j) :
    Partners t i j ↔ ∃ f ∈ (reading (t.take j)).stack.head?, f.offset = i := by
  have htop (f : Frame) : f ∈ (reading (t.take j)).stack.head? ↔
      StandsBefore (t.take j) f ⟨0, 0⟩ := by
    rw [Option.mem_def, List.head?_eq_getElem?, getElem?_stack_reading_iff]
  simp only [htop]
  constructor
  · rintro ⟨⟨o, ho, hopener⟩, -, hij, hbetween⟩
    refine ⟨⟨o, i⟩, ⟨?_, hopener, (matched_iff _).mp hbetween⟩, rfl⟩
    rw [List.getElem?_take_of_lt hij, ho]
  · rintro ⟨f, h, rfl⟩
    have hij : f.offset < j := by
      have hlt := h.offset_lt
      rw [List.length_take] at hlt
      omega
    refine ⟨⟨f.opener, ?_, h.opener⟩, hj, hij, (matched_iff _).mpr h.behind⟩
    rw [← List.getElem?_take_of_lt hij, h.at_offset]

/-- A closer has at most one partner. -/
theorem Partners.unique {t : Text} {i i' j : Nat} (h : Partners t i j) (h' : Partners t i' j) :
    i = i' := by
  obtain ⟨f, hf, rfl⟩ := (partners_iff h.closer).mp h
  obtain ⟨f', hf', rfl⟩ := (partners_iff h.closer).mp h'
  rw [Option.mem_unique hf hf']

/-- The closer fits the stack just when its partner is of its kind. -/
theorem fits_iff {t : Text} {j : Nat} {c : Char} (hc : t[j]? = some c) (hcloser : isCloser c) :
    Fits (reading (t.take j)).stack c ↔ ∃ i, Partners t i j ∧ SameKind t i j := by
  have hj : CloserAt t j := ⟨c, hc, hcloser⟩
  have hopener {f : Frame} (hf : f ∈ (reading (t.take j)).stack.head?) :
      t[f.offset]? = some f.opener := by
    rw [Option.mem_def, List.head?_eq_getElem?, getElem?_stack_reading_iff] at hf
    have hlt := hf.offset_lt
    rw [List.length_take] at hlt
    rw [← List.getElem?_take_of_lt (j := j) (by omega), hf.at_offset]
  constructor
  · rintro ⟨f, hf, hkind⟩
    refine ⟨f.offset, (partners_iff hj).mpr ⟨f, hf, rfl⟩, f.opener, hopener hf, ?_⟩
    rw [hc, hkind]
  · rintro ⟨i, hpartners, o, ho, hkind⟩
    obtain ⟨f, hf, rfl⟩ := (partners_iff hj).mp hpartners
    refine ⟨f, hf, ?_⟩
    rw [Option.mem_unique ho (hopener hf), hc] at hkind
    exact hkind

/-- **The closers that are reported** are those that do not fit where they stand.  Whether one fits
is told by the stack in front of it, which what comes behind does not change. -/
theorem mem_faulty_reading_iff (t : Text) (j : Nat) : j ∈ (reading t).faulty ↔
    ∃ c, t[j]? = some c ∧ isCloser c = true ∧ ¬ Fits (reading (t.take j)).stack c := by
  induction t using List.reverseRecOn with
  | nil => simp [reading]
  | append_singleton t c ih =>
    have hlast : (∃ d, (t ++ [c])[j]? = some d ∧ isCloser d = true ∧
          ¬ Fits (reading ((t ++ [c]).take j)).stack d) ↔
        (∃ d, t[j]? = some d ∧ isCloser d = true ∧ ¬ Fits (reading (t.take j)).stack d) ∨
          j = t.length ∧ isCloser c = true ∧ ¬ Fits (reading t).stack c := by
      rcases Nat.lt_trichotomy j t.length with hj | rfl | hj
      · rw [List.getElem?_append_left hj, List.take_append_of_le_length (Nat.le_of_lt hj)]
        simp [Nat.ne_of_lt hj]
      · rw [List.getElem?_concat_length, List.take_left' rfl]
        simp
      · rw [List.getElem?_eq_none (by simp; omega), List.getElem?_eq_none (by omega)]
        simp
        omega
    rw [hlast, ← ih, reading_concat, Reading.step_faulty, offset_reading]
    split
    · rename_i h
      rw [List.mem_append, List.mem_singleton, and_iff_left h]
    · rename_i h
      rw [or_iff_left (fun h' => h h'.2)]

/-- The openers that are left are those without a partner. -/
theorem mem_stack_reading_iff (t : Text) (i : Nat) :
    i ∈ (reading t).stack.map Frame.offset ↔ OpenerAt t i ∧ ¬ ∃ j, Partners t i j := by
  have hleft : i ∈ (reading t).stack.map Frame.offset ↔
      OpenerAt t i ∧ (surplus (t.drop (i + 1))).closers = 0 := by
    rw [List.mem_map]
    constructor
    · rintro ⟨f, hf, rfl⟩
      obtain ⟨k, hk⟩ := List.mem_iff_getElem?.mp hf
      have h := (getElem?_stack_reading_iff t k f).mp hk
      exact ⟨⟨f.opener, h.at_offset, h.opener⟩, by rw [h.behind]⟩
    · rintro ⟨⟨o, ho, hopener⟩, hclosers⟩
      refine ⟨⟨o, i⟩, List.mem_iff_getElem?.mpr ⟨(surplus (t.drop (i + 1))).openers, ?_⟩, rfl⟩
      rw [getElem?_stack_reading_iff]
      exact ⟨ho, hopener, Surplus.mk_eq_iff.mpr ⟨hclosers, rfl⟩⟩
  rw [hleft, surplus_closers_eq_zero_iff_not_exists]
  refine and_congr_right fun hi => not_congr ?_
  constructor
  · rintro ⟨m, c, hc, hcloser, hs⟩
    rw [List.getElem?_drop] at hc
    refine ⟨i + 1 + m, hi, ⟨c, hc, hcloser⟩, by omega, (matched_iff _).mpr ?_⟩
    rw [List.drop_take, Nat.add_sub_cancel_left, hs]
  · rintro ⟨j, -, ⟨c, hc, hcloser⟩, hij, hbetween⟩
    refine ⟨j - (i + 1), c, ?_, hcloser, ?_⟩
    · rw [List.getElem?_drop, Nat.add_sub_cancel' hij, hc]
    · rw [← List.drop_take, (matched_iff _).mp hbetween]

/-! ## 6. The order of the report -/

/-- What the check reports is in order. -/
structure Reading.Ordered (g : Reading) : Prop where
  faulty : g.faulty.Pairwise (· < ·)
  faulty_lt : ∀ j ∈ g.faulty, j < g.offset
  stack : (g.stack.map Frame.offset).Pairwise (· > ·)
  stack_lt : ∀ f ∈ g.stack, f.offset < g.offset

theorem Reading.Ordered.step {g : Reading} (h : g.Ordered) (c : Char) : (g.step c).Ordered where
  faulty := by
    rw [step_faulty]
    split
    · rw [List.pairwise_append]
      refine ⟨h.faulty, List.pairwise_singleton _ _, fun j hj k hk => ?_⟩
      rw [List.mem_singleton.mp hk]
      exact h.faulty_lt j hj
    · exact h.faulty
  faulty_lt := by
    rw [step_faulty, step_offset]
    split
    · intro j hj
      rcases List.mem_append.mp hj with hj | hj
      · exact Nat.lt_succ_of_lt (h.faulty_lt j hj)
      · rw [List.mem_singleton.mp hj]
        exact Nat.lt_succ_self _
    · exact fun j hj => Nat.lt_succ_of_lt (h.faulty_lt j hj)
  stack := by
    rw [step_stack]
    split
    · rw [List.map_cons, List.pairwise_cons]
      refine ⟨fun i hi => ?_, h.stack⟩
      obtain ⟨f, hf, rfl⟩ := List.mem_map.mp hi
      exact h.stack_lt f hf
    · split
      · rw [List.map_tail]
        exact h.stack.sublist (List.tail_sublist _)
      · exact h.stack
  stack_lt := by
    rw [step_stack, step_offset]
    split
    · intro f hf
      rcases List.mem_cons.mp hf with rfl | hf
      · exact Nat.lt_succ_self _
      · exact Nat.lt_succ_of_lt (h.stack_lt f hf)
    · split
      · exact fun f hf => Nat.lt_succ_of_lt (h.stack_lt f (List.mem_of_mem_tail hf))
      · exact fun f hf => Nat.lt_succ_of_lt (h.stack_lt f hf)

theorem ordered_reading (t : Text) : (reading t).Ordered := by
  induction t using List.reverseRecOn with
  | nil => exact ⟨.nil, by simp [reading], .nil, by simp [reading]⟩
  | append_singleton t c ih =>
    rw [reading_concat]
    exact ih.step c

/-- **The check reports the faulty brackets**: first the closers that have no partner or one of
another kind, in their order, and then the openers that have none, in theirs.  No offset comes
twice.

Partners are defined by what lies between two brackets, and the stack is what has come before.  A
closer of the wrong kind takes its opener off the stack nevertheless, so the partners do not depend
on the kinds, and one mistake does not make the brackets around it faulty. -/
theorem faults_exact (t : Text) : ∃ closers openers,
    faults t = closers ++ openers ∧
      closers.Pairwise (· < ·) ∧ openers.Pairwise (· < ·) ∧ (faults t).Nodup ∧
      (∀ j, j ∈ closers ↔ CloserAt t j ∧
        ((¬ ∃ i, Partners t i j) ∨ ∃ i, Partners t i j ∧ ¬ SameKind t i j)) ∧
      (∀ i, i ∈ openers ↔ OpenerAt t i ∧ ¬ ∃ j, Partners t i j) := by
  have hordered := ordered_reading t
  have hopeners (i : Nat) : i ∈ (reading t).stack.reverse.map Frame.offset ↔
      OpenerAt t i ∧ ¬ ∃ j, Partners t i j := by
    rw [List.map_reverse, List.mem_reverse, mem_stack_reading_iff]
  have hclosers (j : Nat) : j ∈ (reading t).faulty ↔ CloserAt t j ∧
      ((¬ ∃ i, Partners t i j) ∨ ∃ i, Partners t i j ∧ ¬ SameKind t i j) := by
    rw [mem_faulty_reading_iff]
    constructor
    · rintro ⟨c, hc, hcloser, hfits⟩
      rw [fits_iff hc hcloser] at hfits
      refine ⟨⟨c, hc, hcloser⟩, ?_⟩
      by_cases hpartner : ∃ i, Partners t i j
      · obtain ⟨i, hi⟩ := hpartner
        exact Or.inr ⟨i, hi, fun hkind => hfits ⟨i, hi, hkind⟩⟩
      · exact Or.inl hpartner
    · rintro ⟨⟨c, hc, hcloser⟩, hfaulty⟩
      refine ⟨c, hc, hcloser, ?_⟩
      rw [fits_iff hc hcloser]
      rintro ⟨i, hi, hkind⟩
      rcases hfaulty with hnone | ⟨i', hi', hother⟩
      · exact hnone ⟨i, hi⟩
      · exact hother (hi.unique hi' ▸ hkind)
  have hreversed : ((reading t).stack.reverse.map Frame.offset).Pairwise (· < ·) := by
    rw [List.map_reverse, List.pairwise_reverse]
    exact hordered.stack
  refine ⟨_, _, faults_eq_reading t, hordered.faulty, hreversed, ?_, hclosers, hopeners⟩
  rw [faults_eq_reading, List.nodup_append]
  refine ⟨hordered.faulty.imp Nat.ne_of_lt, hreversed.imp Nat.ne_of_lt, ?_⟩
  -- an offset in both parts would hold an opener and a closer
  rintro j hj i hi rfl
  obtain ⟨c, hc, hcloser⟩ := ((hclosers j).mp hj).1
  obtain ⟨o, ho, hopener⟩ := ((hopeners j).mp hi).1
  rw [Option.some.inj (hc.symm.trans ho), isCloser_of_isOpener hopener] at hcloser
  cases hcloser

-- Where two pairs cross, each closer has a partner of another kind; no opener is reported.
example : faults "([)]".toList = [2, 3] := by decide

end Bracket
end HypnoScript
