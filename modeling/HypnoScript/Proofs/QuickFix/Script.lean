/-
# Insertions, read off a script

Edits that only put texts in can be written down as a *script*: the text from left to right, cut at
the places where something is put in, with the new pieces between the old ones (`Edit.Part`).  What
`Edit.applyAll` does with the splices of a script from the last to the first is what is read off the
script from the first to the last (`Edit.applySplices_insertions`).

The splices come from a list in any order, and are sorted first.  A splice that stands in front of
all others, but not in the list, ends up in front, and the others keep their order
(`Edit.mergeSort_toFront`).
-/
import HypnoScript.Edit

namespace HypnoScript
namespace Edit

/-! ## 1. Scripts -/

/-- A piece of a script: one that the text has already, or a new one. -/
inductive Part where
  | keep (t : Text)
  | put (t : Text)
  deriving DecidableEq, Repr

namespace Part

/-- What the text has of a piece. -/
def old : Part → Text
  | keep t => t
  | put _ => []

/-- What the text has of a piece when the script has been carried out. -/
def new : Part → Text
  | keep t => t
  | put t => t

end Part

/-- The text that a script is for. -/
def source (ps : List Part) : Text := ps.flatMap Part.old

/-- The text that a script leads to. -/
def target (ps : List Part) : Text := ps.flatMap Part.new

/-- The splices of a script for a text that starts at an offset. -/
def insertions : Nat → List Part → List Splice
  | _, [] => []
  | o, .keep t :: ps => insertions (o + t.length) ps
  | o, .put t :: ps => ⟨o, o, t⟩ :: insertions o ps

section Equations

variable (o : Nat) (t : Text) (ps qs : List Part)

@[simp] theorem source_nil : source [] = [] := rfl

@[simp] theorem source_keep : source (.keep t :: ps) = t ++ source ps := rfl

@[simp] theorem source_put : source (.put t :: ps) = source ps := rfl

@[simp] theorem target_nil : target [] = [] := rfl

@[simp] theorem target_keep : target (.keep t :: ps) = t ++ target ps := rfl

@[simp] theorem target_put : target (.put t :: ps) = t ++ target ps := rfl

@[simp] theorem insertions_nil : insertions o [] = [] := rfl

@[simp] theorem insertions_keep :
    insertions o (.keep t :: ps) = insertions (o + t.length) ps := rfl

@[simp] theorem insertions_put :
    insertions o (.put t :: ps) = ⟨o, o, t⟩ :: insertions o ps := rfl

@[simp] theorem source_append : source (ps ++ qs) = source ps ++ source qs :=
  List.flatMap_append

@[simp] theorem target_append : target (ps ++ qs) = target ps ++ target qs :=
  List.flatMap_append

@[simp] theorem insertions_append :
    insertions o (ps ++ qs) = insertions o ps ++ insertions (o + (source ps).length) qs := by
  induction ps generalizing o with
  | nil => simp
  | cons p ps ih =>
    cases p with
    | keep t => simp [ih, Nat.add_assoc]
    | put t => simp [ih]

end Equations

/-! ## 2. Carrying a script out -/

/-- A text put in between two others. -/
theorem apply_insertion (pre t rest : Text) :
    Splice.apply ⟨pre.length, pre.length, t⟩ (pre ++ rest) = pre ++ (t ++ rest) := by
  simp [Splice.apply]

/-- **The splices of a script, made from the last to the first, lead to its target.**  What has been
made reaches down to the start of the script at most, so no splice in front of it is refused. -/
theorem applySplices_insertions_append (pre : Text) (ps : List Part) (rest : List Splice) :
    ∃ limit : Option Nat, (∀ l ∈ limit, pre.length ≤ l) ∧
      applySplices (pre ++ source ps) none ((insertions pre.length ps).reverse ++ rest) =
        applySplices (pre ++ target ps) limit rest := by
  induction ps generalizing pre rest with
  | nil => exact ⟨none, by simp, by simp⟩
  | cons p ps ih =>
    cases p with
    | keep t =>
      obtain ⟨limit, hlimit, h⟩ := ih (pre ++ t) rest
      rw [List.length_append] at hlimit h
      refine ⟨limit, fun l hl => ?_, ?_⟩
      · have := hlimit l hl
        omega
      · simpa using h
    | put t =>
      obtain ⟨limit, hlimit, h⟩ := ih pre (⟨pre.length, pre.length, t⟩ :: rest)
      refine ⟨some pre.length, by simp, ?_⟩
      have hfree : (limit.any fun l => decide (l < pre.length)) = false := by
        cases limit with
        | none => rfl
        | some l => simpa using hlimit l rfl
      rw [insertions_put, List.reverse_cons, List.append_assoc, List.singleton_append, source_put,
        h, applySplices, hfree, apply_insertion, target_put]
      rfl

theorem applySplices_insertions (ps : List Part) :
    applySplices (source ps) none (insertions 0 ps).reverse = .ok (target ps) := by
  obtain ⟨limit, -, h⟩ := applySplices_insertions_append [] ps []
  rw [List.append_nil, List.nil_append] at h
  exact h

/-- **Edits whose splices are, in their order, those of a script lead to its target.**  So to see
what edits do it is enough to sort their splices. -/
theorem applyAll_eq_target {t : Text} {edits : List Edit} {ps : List Part} (hsource : source ps = t)
    (h : (edits.map (splice (.ofText t))).mergeSort Splice.precedes = insertions 0 ps) :
    applyAll t edits = .ok (target ps) := by
  rw [← applySplices_insertions ps, hsource, ← h]
  rfl

/-! ## 3. Splices in their order -/

theorem Splice.precedes_iff {a b : Splice} :
    a.precedes b = true ↔ a.start < b.start ∨ a.start = b.start ∧ a.stop ≤ b.stop := by
  simp [precedes]

theorem Splice.precedes_trans (a b c : Splice) (h : a.precedes b = true)
    (h' : b.precedes c = true) : a.precedes c = true := by
  rw [precedes_iff] at *
  omega

theorem Splice.precedes_total (a b : Splice) : (a.precedes b || b.precedes a) = true := by
  rw [Bool.or_eq_true, precedes_iff, precedes_iff]
  omega

/-- The splices of a script put something in, and not in front of the script. -/
theorem mem_insertions {o : Nat} {ps : List Part} {s : Splice} (h : s ∈ insertions o ps) :
    o ≤ s.start ∧ s.stop = s.start ∧ s.start ≤ o + (source ps).length := by
  induction ps generalizing o with
  | nil => simp at h
  | cons p ps ih =>
    cases p with
    | keep t =>
      have := ih h
      simp only [source_keep, List.length_append]
      omega
    | put t =>
      rw [insertions_put, List.mem_cons] at h
      rcases h with rfl | h
      · exact ⟨Nat.le_refl _, rfl, Nat.le_add_right _ _⟩
      · exact ih h

/-- The splices of a script are in order. -/
theorem pairwise_insertions (o : Nat) (ps : List Part) :
    (insertions o ps).Pairwise fun a b => a.precedes b = true := by
  induction ps generalizing o with
  | nil => exact .nil
  | cons p ps ih =>
    cases p with
    | keep t => exact ih _
    | put t =>
      refine .cons (fun s hs => ?_) (ih o)
      have := mem_insertions hs
      rw [Splice.precedes_iff]
      simp only
      omega

/-- **Sorting brings a splice to the front** that precedes some splices behind it and is preceded by
none of those in front of it, and leaves the others as they are. -/
theorem mergeSort_toFront {as bs : List Splice} {s : Splice}
    (has : ∀ a ∈ as, a.precedes s = false) (hbs : ∀ b ∈ bs, s.precedes b = true)
    (hsorted : (as ++ bs).Pairwise fun a b => a.precedes b = true) :
    (as ++ s :: bs).mergeSort Splice.precedes = s :: (as ++ bs) := by
  induction as with
  | nil => exact List.mergeSort_of_pairwise (.cons hbs hsorted)
  | cons a as ih =>
    rw [List.cons_append, List.pairwise_cons] at hsorted
    have has' : a.precedes s = false := has a List.mem_cons_self
    -- `a` goes in somewhere among the rest, sorted already, behind those that it does not precede.
    obtain ⟨l₁, l₂, hsort, hrest, hfront⟩ :=
      List.mergeSort_cons Splice.precedes_trans Splice.precedes_total a (as ++ s :: bs)
    have horder := List.pairwise_mergeSort Splice.precedes_trans Splice.precedes_total
      (a :: (as ++ s :: bs))
    rw [ih (fun b hb => has b (List.mem_cons_of_mem _ hb)) hsorted.2] at hrest
    rw [hsort] at horder
    rw [List.cons_append, hsort]
    match l₁ with
    | [] =>
      have hs : s ∈ l₂ := by
        rw [← List.nil_append l₂, ← hrest]
        exact List.mem_cons_self
      have := (List.pairwise_cons.mp horder).1 s hs
      rw [has'] at this
      exact absurd this Bool.false_ne_true
    | [b] =>
      obtain ⟨rfl, htail⟩ : s = b ∧ as ++ bs = l₂ := List.cons.inj hrest
      rw [← htail]
      rfl
    | b :: c :: l₁ =>
      have hc : c ∈ as ++ bs := by
        rw [(List.cons.inj hrest).2]
        exact List.mem_cons_self
      have := hfront c (List.mem_cons_of_mem _ List.mem_cons_self)
      rw [hsorted.1 c hc] at this
      exact absurd this (by decide)

end Edit
end HypnoScript
