/-
# Edits are made all at once

Splices that lie one behind the other cut a text into what they take out and what is left between
them.  Making them from the last to the first leads to the same text as reading the pieces from the
first to the last, with the new texts in the place of the old ones (`Edit.weave`): at every point of
the run, the text is what the splices made so far lead to, and in front of the last of them it is
still as it was (`Edit.apply_weave`).  So the run succeeds if the splices are apart
(`Edit.applySplices_of_apart`), and only then, although each one is compared with its neighbour
alone (`Edit.apart_of_applySplices_eq_ok`).

For a list of edits this says that they are a simultaneous substitution, in the order of their
starts, their ends and their places in the list (`Edit.applyAll_substitutes`).
-/
import HypnoScript.Proofs.QuickFix.Script
import HypnoScript.Proofs.Text.Offsets

namespace HypnoScript
namespace Edit

variable {t u v : Text} {s : Splice} {ss done rest : List Splice}

/-! ## 1. A text in pieces -/

/-- The characters of a text from one offset up to another. -/
def slice (t : Text) (o o' : Nat) : Text := (t.take o').drop o

/-- A text from an offset on, with a piece in the place of every splice and what lies between the
splices kept. -/
def weave (t : Text) (piece : Splice → Text) : Nat → List Splice → Text
  | o, [] => t.drop o
  | o, s :: ss => slice t o s.start ++ piece s ++ weave t piece s.stop ss

/-- Whether a splice leaves the character at an offset where it is. -/
def Splice.spares (s : Splice) (o : Nat) : Bool := o < s.start || s.stop ≤ o

/-- The characters of a text that no splice takes out. -/
def untouched (t : Text) (ss : List Splice) : Text :=
  (t.zipIdx.filter fun c => ss.all (·.spares c.2)).map Prod.fst

/-- The splice takes a stretch out of the text. -/
structure Splice.Within (t : Text) (s : Splice) : Prop where
  ordered : s.start ≤ s.stop
  inside : s.stop ≤ t.length

/-- The splices lie one behind the other. -/
def Apart (ss : List Splice) : Prop := ss.Pairwise fun a b => a.stop ≤ b.start

theorem length_slice {o o' : Nat} (h : o' ≤ t.length) : (slice t o o').length = o' - o := by
  rw [slice, List.length_drop, List.length_take, Nat.min_eq_left h]

theorem slice_append_drop {o o' : Nat} (h : o ≤ o') (h' : o' ≤ t.length) :
    slice t o o' ++ t.drop o' = t.drop o := by
  have hlength : o ≤ (t.take o').length := by
    rw [List.length_take]
    omega
  rw [slice, ← List.drop_append_of_le_length hlength, List.take_append_drop]

/-! ## 2. Splices from the last to the first -/

/-- **One splice more.**  In front of the splices made so far the text is as it was, so the next one
takes out what it would have taken out of the text itself. -/
theorem apply_weave (hs : s.Within t) (hnext : ∀ x ∈ ss, s.stop ≤ x.start)
    (hinside : ∀ x ∈ ss, x.start ≤ t.length) :
    s.apply (weave t Splice.newText 0 ss) = weave t Splice.newText 0 (s :: ss) := by
  obtain ⟨hordered, hstop⟩ := hs
  cases ss with
  | nil => rfl
  | cons x ss =>
    have hx : s.stop ≤ x.start := hnext x List.mem_cons_self
    have hlength : (t.take x.start).length = x.start :=
      List.length_take_of_le (hinside x List.mem_cons_self)
    have hfront : weave t Splice.newText 0 (x :: ss) =
        t.take x.start ++ (x.newText ++ weave t Splice.newText x.stop ss) :=
      List.append_assoc _ _ _
    have htake : (t.take x.start).take s.start = t.take s.start := by
      rw [List.take_take, Nat.min_eq_left (Nat.le_trans hordered hx)]
    rw [hfront, Splice.apply, List.take_append_of_le_length (by omega),
      List.drop_append_of_le_length (by omega), htake]
    simp only [weave, slice, List.append_assoc, List.drop_zero]

/-- **Splices that lie apart are made**, and lead to the text with their new texts woven in.  The
induction is on what is still to be made; what it carries is that the text so far is the weave of
the splices that are done, in front of which nothing has changed. -/
theorem applySplices_of_apart (hwithin : ∀ s ∈ rest.reverse ++ done, s.Within t)
    (hapart : Apart (rest.reverse ++ done)) :
    applySplices (weave t Splice.newText 0 done) (done.head?.map Splice.start) rest =
      .ok (weave t Splice.newText 0 (rest.reverse ++ done)) := by
  induction rest generalizing done with
  | nil => rfl
  | cons s rest ih =>
    -- The text is what the splices in `done` lead to, and `s` is the next one in front of them.
    rw [List.reverse_cons, List.append_assoc, List.singleton_append] at hwithin hapart ⊢
    obtain ⟨-, hdone, -⟩ := List.pairwise_append.mp hapart
    have hnext : ∀ x ∈ done, s.stop ≤ x.start := (List.pairwise_cons.mp hdone).1
    have hs : s.Within t := hwithin s (List.mem_append_right _ List.mem_cons_self)
    have hinside : ∀ x ∈ done, x.start ≤ t.length := by
      intro x hx
      obtain ⟨hordered, hstop⟩ := hwithin x (List.mem_append_right _ (List.mem_cons_of_mem _ hx))
      exact Nat.le_trans hordered hstop
    have hlimit : ((done.head?.map Splice.start).any fun l => decide (l < s.stop)) = false := by
      cases done with
      | nil => rfl
      | cons x done => simpa using hnext x List.mem_cons_self
    rw [applySplices, hlimit, if_neg Bool.false_ne_true, apply_weave hs hnext hinside]
    exact ih hwithin hapart

/-- **Only splices that lie apart are made.**  Each one is compared with the one made before it, and
that is enough: all the others start behind that one. -/
theorem apart_of_applySplices_eq_ok
    (hsorted : (rest.reverse ++ done).Pairwise fun a b => a.start ≤ b.start) (hdone : Apart done)
    (h : applySplices u (done.head?.map Splice.start) rest = .ok v) :
    Apart (rest.reverse ++ done) := by
  induction rest generalizing u done with
  | nil => exact hdone
  | cons s rest ih =>
    rw [List.reverse_cons, List.append_assoc, List.singleton_append] at hsorted ⊢
    obtain ⟨-, hstarts, -⟩ := List.pairwise_append.mp hsorted
    unfold applySplices at h
    split at h
    · cases h
    · rename_i hlimit
      refine ih hsorted (List.pairwise_cons.mpr ⟨?_, hdone⟩) h
      cases done with
      | nil => exact fun x hx => absurd hx List.not_mem_nil
      | cons y done =>
        have hy : s.stop ≤ y.start := by simpa using hlimit
        obtain ⟨-, hbehind⟩ := List.pairwise_cons.mp hstarts
        intro x hx
        rcases List.mem_cons.mp hx with rfl | hx
        · exact hy
        · exact Nat.le_trans hy ((List.pairwise_cons.mp hbehind).1 x hx)

/-- Splices in their order that lie apart are made from the last to the first. -/
theorem applySplices_reverse_of_apart (hwithin : ∀ s ∈ ss, s.Within t) (hapart : Apart ss) :
    applySplices t none ss.reverse = .ok (weave t Splice.newText 0 ss) := by
  have hss : ss.reverse.reverse ++ [] = ss := by rw [List.reverse_reverse, List.append_nil]
  rw [← hss] at hwithin hapart
  have hmade := applySplices_of_apart hwithin hapart
  rwa [hss] at hmade

/-- Splices in their order that are made from the last to the first lie apart. -/
theorem apart_of_applySplices_reverse_eq_ok (hsorted : ss.Pairwise fun a b => a.start ≤ b.start)
    (h : applySplices t none ss.reverse = .ok v) : Apart ss := by
  have hss : ss.reverse.reverse ++ [] = ss := by rw [List.reverse_reverse, List.append_nil]
  rw [← hss] at hsorted ⊢
  exact apart_of_applySplices_eq_ok hsorted List.Pairwise.nil h

/-! ## 3. What is left of the text -/

theorem Splice.spares_iff {o : Nat} : s.spares o = true ↔ o < s.start ∨ s.stop ≤ o := by
  rw [spares, Bool.or_eq_true, decide_eq_true_iff, decide_eq_true_iff]

theorem map_fst_filter_zipIdx {p : Char × Nat → Bool} {o : Nat}
    (h : ∀ c, o ≤ c.2 → c.2 < t.length + o → p c = true) :
    ((t.zipIdx o).filter p).map Prod.fst = t := by
  have hall : ∀ c ∈ t.zipIdx o, p c = true := fun c hc =>
    h c (List.le_snd_of_mem_zipIdx hc) (List.snd_lt_of_mem_zipIdx hc)
  rw [List.filter_eq_self.mpr hall, List.zipIdx_map_fst]

/-- What a splice in front of others leaves: the characters in front of it, and what the others
leave behind it. -/
theorem filter_spares_cons {o : Nat} (hs : s.Within t) (ho : o ≤ s.start)
    (hbehind : ∀ x ∈ ss, s.stop ≤ x.start) :
    (((t.drop o).zipIdx o).filter fun c => (s :: ss).all (·.spares c.2)).map Prod.fst =
      slice t o s.start ++
        (((t.drop s.stop).zipIdx s.stop).filter fun c => ss.all (·.spares c.2)).map Prod.fst := by
  obtain ⟨hordered, hstop⟩ := hs
  have hstart : s.start ≤ t.length := Nat.le_trans hordered hstop
  have hfront : (slice t o s.start).length + o = s.start := by
    rw [length_slice hstart]
    omega
  have hmiddle : (slice t s.start s.stop).length + s.start = s.stop := by
    rw [length_slice hstop]
    omega
  -- The text in three parts: in front of the splice, what it takes out, and behind it.
  rw [← slice_append_drop ho hstart, ← slice_append_drop hordered hstop, List.zipIdx_append,
    List.zipIdx_append, List.filter_append, List.filter_append, List.map_append, List.map_append,
    Nat.add_comm o, hfront, Nat.add_comm s.start, hmiddle]
  have hkept : (((slice t o s.start).zipIdx o).filter fun c =>
      (s :: ss).all (·.spares c.2)).map Prod.fst = slice t o s.start := by
    refine map_fst_filter_zipIdx ?_
    intro c _ hc
    rw [hfront] at hc
    refine List.all_eq_true.mpr ?_
    intro x hx
    rw [Splice.spares_iff]
    rcases List.mem_cons.mp hx with rfl | hx
    · exact Or.inl hc
    · have := hbehind x hx
      omega
  have htaken : (((slice t s.start s.stop).zipIdx s.start).filter fun c =>
      (s :: ss).all (·.spares c.2)) = [] := by
    refine List.filter_eq_nil_iff.mpr ?_
    intro c hc hspared
    have hge := List.le_snd_of_mem_zipIdx hc
    have hlt := List.snd_lt_of_mem_zipIdx hc
    rw [hmiddle] at hlt
    have := Splice.spares_iff.mp (List.all_eq_true.mp hspared s List.mem_cons_self)
    omega
  have hrest : (((t.drop s.stop).zipIdx s.stop).filter fun c => (s :: ss).all (·.spares c.2)) =
      ((t.drop s.stop).zipIdx s.stop).filter fun c => ss.all (·.spares c.2) := by
    refine List.filter_congr ?_
    intro c hc
    have hspared : s.spares c.2 = true :=
      Splice.spares_iff.mpr (Or.inr (List.le_snd_of_mem_zipIdx hc))
    rw [List.all_cons, hspared, Bool.true_and]
  rw [hkept, htaken, hrest, List.map_nil, List.nil_append]

/-- What the splices leave of the text from an offset in front of them on. -/
theorem weave_eq_filter {o : Nat} (hwithin : ∀ s ∈ ss, s.Within t) (hapart : Apart ss)
    (ho : ∀ s ∈ ss, o ≤ s.start) : weave t (fun _ => []) o ss =
      (((t.drop o).zipIdx o).filter fun c => ss.all (·.spares c.2)).map Prod.fst := by
  induction ss generalizing o with
  | nil => exact (map_fst_filter_zipIdx fun _ _ _ => rfl).symm
  | cons s ss ih =>
    obtain ⟨hbehind, hapart⟩ := List.pairwise_cons.mp hapart
    obtain ⟨hs, hwithin⟩ := List.forall_mem_cons.mp hwithin
    rw [filter_spares_cons hs (ho s List.mem_cons_self) hbehind, weave, List.append_nil,
      ih hwithin hapart hbehind]

/-- **Every character that no splice takes out is kept, and kept once.**  With nothing in the place
of the old texts, the weave is what lies between the splices, and no two of those stretches overlap.
-/
theorem weave_eq_untouched (hwithin : ∀ s ∈ ss, s.Within t) (hapart : Apart ss) :
    weave t (fun _ => []) 0 ss = untouched t ss :=
  weave_eq_filter hwithin hapart fun _ _ => Nat.zero_le _

/-! ## 4. The order of edits -/

/-- By start, then by end, then by the place in the list. -/
def Earlier (a b : Splice × Nat) : Prop :=
  a.1.start < b.1.start ∨ a.1.start = b.1.start ∧
    (a.1.stop < b.1.stop ∨ a.1.stop = b.1.stop ∧ a.2 < b.2)

/-- The splices of some edits, each with the place of its edit in the list, put in order. -/
structure InOrder (t : Text) (edits : List Edit) (ordered : List (Splice × Nat)) : Prop where
  perm : ordered.Perm (edits.map (splice (Document.ofText t))).zipIdx
  earlier : ordered.Pairwise Earlier

/-- Some splice runs into one behind it. -/
def Overlapping (ordered : List (Splice × Nat)) : Prop :=
  ∃ a b, [a, b].Sublist ordered ∧ b.1.start < a.1.stop

theorem earlier_of_zipIdxLE {a b : Splice × Nat}
    (h : List.zipIdxLE Splice.precedes a b = true) (hne : a.2 ≠ b.2) : Earlier a b := by
  unfold List.zipIdxLE at h
  unfold Earlier
  split at h
  · rename_i hab
    rw [Splice.precedes_iff] at hab
    split at h
    · rename_i hba
      rw [Splice.precedes_iff] at hba
      have hplace : a.2 ≤ b.2 := of_decide_eq_true h
      omega
    · rename_i hba
      rw [Splice.precedes_iff] at hba
      omega
  · exact absurd h Bool.false_ne_true

/-- **The edits have an order**, and it is the one in which they are made, from the last to the
first: sorting leaves splices that are alike in the order of the list. -/
theorem exists_inOrder (t : Text) (edits : List Edit) : ∃ ordered, InOrder t edits ordered ∧
    applyAll t edits = applySplices t none (ordered.map Prod.fst).reverse := by
  let placed := (edits.map (splice (Document.ofText t))).zipIdx
  let ordered := placed.mergeSort (List.zipIdxLE Splice.precedes)
  have hperm : ordered.Perm placed := List.mergeSort_perm _ _
  -- No two edits have the same place in the list, so sorting by it leaves nothing open.
  have hplaces : ordered.Pairwise fun a b => a.2 ≠ b.2 := by
    rw [← List.pairwise_map (f := Prod.snd) (R := fun m n => m ≠ n)]
    refine ((hperm.map Prod.snd).nodup_iff).mpr ?_
    rw [List.zipIdx_map_snd]
    exact List.nodup_range' 1
  have hsorted := List.pairwise_mergeSort (List.zipIdxLE_trans Splice.precedes_trans)
    (List.zipIdxLE_total Splice.precedes_total) placed
  refine ⟨ordered, ⟨hperm, ?_⟩, ?_⟩
  · refine (hsorted.and hplaces).imp ?_
    rintro a b ⟨hle, hne⟩
    exact earlier_of_zipIdxLE hle hne
  · have hfst : ordered.map Prod.fst =
        (edits.map (splice (Document.ofText t))).mergeSort Splice.precedes :=
      List.mergeSort_zipIdx
    rw [hfst]
    rfl

/-! ## 5. A list of edits -/

section Edits

variable {edits : List Edit} {ordered other : List (Splice × Nat)}

/-- Edits have one order only. -/
theorem InOrder.unique (h : InOrder t edits ordered) (h' : InOrder t edits other) :
    ordered = other := by
  refine List.Perm.eq_of_pairwise ?_ h.earlier h'.earlier (h.perm.trans h'.perm.symm)
  intro a b _ _ hab hba
  unfold Earlier at hab hba
  omega

theorem InOrder.perm_splices (h : InOrder t edits ordered) :
    (ordered.map Prod.fst).Perm (edits.map (splice (Document.ofText t))) := by
  have hperm := h.perm.map Prod.fst
  rwa [List.zipIdx_map_fst] at hperm

theorem InOrder.within (h : InOrder t edits ordered)
    (hedits : ∀ e ∈ edits, (splice (Document.ofText t) e).Within t) :
    ∀ s ∈ ordered.map Prod.fst, s.Within t := by
  intro s hs
  obtain ⟨e, he, rfl⟩ := List.mem_map.mp (h.perm_splices.mem_iff.mp hs)
  exact hedits e he

/-- A span whose ends are in order when they have been clamped takes a stretch out of the text. -/
theorem within_splice {e : Edit} (h : (Document.ofText t).offsetAt e.range.start ≤
    (Document.ofText t).offsetAt e.range.stop) : (splice (Document.ofText t) e).Within t :=
  ⟨h, Document.offsetAt_le_length t e.range.stop⟩

theorem not_overlapping_iff : ¬ Overlapping ordered ↔ Apart (ordered.map Prod.fst) := by
  unfold Overlapping Apart
  rw [List.pairwise_map, List.pairwise_iff_forall_sublist]
  constructor
  · intro h a b hab
    refine Nat.le_of_not_lt ?_
    intro hlt
    exact h ⟨a, b, hab, hlt⟩
  · rintro h ⟨a, b, hab, hlt⟩
    exact Nat.not_le_of_lt hlt (h hab)

/-- What puts something in stands in front of what takes something out at the same place, and in the
order of the list. -/
theorem InOrder.insertions_first (h : InOrder t edits ordered)
    (hwithin : ∀ s ∈ ordered.map Prod.fst, s.Within t) : ordered.Pairwise fun a b =>
      a.1.start = b.1.start → b.1.stop = b.1.start → a.1.stop = a.1.start ∧ a.2 < b.2 := by
  refine h.earlier.imp_of_mem ?_
  intro a b ha _ hearlier hstart hstop
  obtain ⟨hordered, -⟩ := hwithin a.1 (List.mem_map_of_mem ha)
  unfold Earlier at hearlier
  omega

theorem InOrder.apart_of_eq_ok (h : InOrder t edits ordered)
    (hok : applySplices t none (ordered.map Prod.fst).reverse = .ok v) :
    Apart (ordered.map Prod.fst) := by
  have hstarts : (ordered.map Prod.fst).Pairwise fun a b => a.start ≤ b.start := by
    refine List.pairwise_map.mpr (h.earlier.imp ?_)
    intro a b hearlier
    unfold Earlier at hearlier
    omega
  exact apart_of_applySplices_reverse_eq_ok hstarts hok

/-- **Edits are a simultaneous substitution**, if clamping turns no span round.  Take the edits in
the order of their starts, their ends and their places in the list.  They are refused just when one
of them runs into one behind it.  Otherwise they lead to what lies between them, with their new
texts put in: all that no edit takes out, each character once.  Of the edits at one offset, those
that only put something in come first, in the order of the list.

The run goes from the last edit to the first, on a text that changes with each of them, and compares
each one with its neighbour alone.  Nothing of this is seen from outside: in front of the edits that
are made the text is as it was, so all offsets are those of the text. -/
theorem applyAll_substitutes {t : Text} {edits : List Edit}
    (h : ∀ e ∈ edits, (Document.ofText t).offsetAt e.range.start ≤
      (Document.ofText t).offsetAt e.range.stop) :
    (∃ ordered, InOrder t edits ordered) ∧
    ∀ ordered, InOrder t edits ordered →
      ((∃ o, applyAll t edits = .error o) ↔ Overlapping ordered) ∧
      (¬ Overlapping ordered →
        applyAll t edits = .ok (weave t Splice.newText 0 (ordered.map Prod.fst)) ∧
        weave t (fun _ => []) 0 (ordered.map Prod.fst) = untouched t (ordered.map Prod.fst)) ∧
      ordered.Pairwise fun a b =>
        a.1.start = b.1.start → b.1.stop = b.1.start → a.1.stop = a.1.start ∧ a.2 < b.2 := by
  obtain ⟨sorted, hsorted, happly⟩ := exists_inOrder t edits
  refine ⟨⟨sorted, hsorted⟩, ?_⟩
  intro ordered hinOrder
  obtain rfl := hsorted.unique hinOrder
  have hwithin : ∀ s ∈ sorted.map Prod.fst, s.Within t :=
    hinOrder.within fun e he => within_splice (h e he)
  have hok (hfree : ¬ Overlapping sorted) :
      applyAll t edits = .ok (weave t Splice.newText 0 (sorted.map Prod.fst)) := by
    rw [happly]
    exact applySplices_reverse_of_apart hwithin (not_overlapping_iff.mp hfree)
  refine ⟨⟨?_, ?_⟩, ?_, hinOrder.insertions_first hwithin⟩
  · rintro ⟨o, ho⟩
    refine Classical.byContradiction ?_
    intro hfree
    rw [hok hfree] at ho
    cases ho
  · intro hover
    cases hresult : applyAll t edits with
    | error o => exact ⟨o, rfl⟩
    | ok v =>
      rw [happly] at hresult
      exact absurd hover (not_overlapping_iff.mpr (hinOrder.apart_of_eq_ok hresult))
  · intro hfree
    exact ⟨hok hfree, weave_eq_untouched hwithin (not_overlapping_iff.mp hfree)⟩

/-- Two insertions at the start of what a third edit takes out, listed behind it. -/
theorem applyAll_substitutes_insertions :
    let t := "abcd".toList
    let here : Position := ⟨0, 1⟩
    let edits : List Edit := [⟨⟨here, ⟨0, 3⟩, by decide⟩, "x".toList⟩, insertAt here "y".toList,
      insertAt here "z".toList]
    let ordered : List (Splice × Nat) := [(⟨1, 1, "y".toList⟩, 1), (⟨1, 1, "z".toList⟩, 2),
      (⟨1, 3, "x".toList⟩, 0)]
    (∀ e ∈ edits, (Document.ofText t).offsetAt e.range.start ≤
        (Document.ofText t).offsetAt e.range.stop) ∧
      InOrder t edits ordered ∧ ¬ Overlapping ordered ∧
      applyAll t edits = .ok "ayzxd".toList := by
  intro t here edits ordered
  have hedits : ∀ e ∈ edits, (Document.ofText t).offsetAt e.range.start ≤
      (Document.ofText t).offsetAt e.range.stop := by decide
  have hinOrder : InOrder t edits ordered := by
    refine ⟨by decide, ?_⟩
    unfold Earlier
    decide
  have hfree : ¬ Overlapping ordered := by
    rw [not_overlapping_iff]
    unfold Apart
    decide
  exact ⟨hedits, hinOrder, hfree, ((applyAll_substitutes hedits).2 ordered hinOrder).2.1 hfree |>.1⟩

end Edits

end Edit
end HypnoScript
