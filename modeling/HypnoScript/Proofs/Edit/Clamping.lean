/-
# Spans that clamping leaves in order

The ends of a span are in order as positions.  As offsets they are, too, unless both lines count as
the last one although they differ (`Document.Overshoots`): then an edit takes nothing out, but puts
the text between its ends in twice (`Edit.offsetAt_overshoots`).  All other spans are stretches of
the text, and no edit of such a span brings any of the text twice (`Edit.offsetAt_keeps_order`).
-/
import HypnoScript.Proofs.Edit.Substitution

namespace HypnoScript
namespace Edit

variable {t r : Text} {edits : List Edit}

theorem applyAll_singleton (t : Text) (e : Edit) :
    applyAll t [e] = .ok ((splice (Document.ofText t) e).apply t) := by
  have hsort : [splice (Document.ofText t) e].mergeSort Splice.precedes =
      [splice (Document.ofText t) e] := List.mergeSort_singleton _
  simp only [applyAll, List.map_singleton, hsort]
  rfl

/-- A span whose ends do not overshoot is a stretch of the text. -/
theorem within_splice_of_not_overshoots {e : Edit}
    (h : ¬ (Document.ofText t).Overshoots e.range.start e.range.stop) :
    (splice (Document.ofText t) e).Within t :=
  within_splice ((Document.offsetAt_le_iff e.range.ordered).mpr h)

/-- What edits of stretches of the text lead to, if they are made: the text between the stretches,
each character once, and the new texts. -/
theorem exists_weave_of_applyAll
    (hwithin : ∀ e ∈ edits, (splice (Document.ofText t) e).Within t)
    (h : applyAll t edits = .ok r) :
    ∃ ss, ss.Perm (edits.map (splice (Document.ofText t))) ∧ r = weave t Splice.newText 0 ss ∧
      weave t (fun _ => []) 0 ss = untouched t ss := by
  obtain ⟨ordered, hinOrder, happly⟩ := exists_inOrder t edits
  rw [happly] at h
  have hapart : Apart (ordered.map Prod.fst) := hinOrder.apart_of_eq_ok h
  have hsplices : ∀ s ∈ ordered.map Prod.fst, s.Within t := hinOrder.within hwithin
  rw [applySplices_reverse_of_apart hsplices hapart] at h
  exact ⟨ordered.map Prod.fst, hinOrder.perm_splices, (Except.ok.inj h).symm,
    weave_eq_untouched hsplices hapart⟩

/-- **Clamping keeps the order of positions, but for those that overshoot.**  So an edit whose ends
do not overshoot puts its text in the place of a stretch of the text, and in what some such edits
lead to, no character of the text stands twice.

An edit is made by cutting the text at both of its offsets, and nothing makes sure that the first
one is not the greater one.  Where it is, what lies between them stands on both sides of the new
text. -/
theorem offsetAt_keeps_order (t : Text) :
    let d := Document.ofText t
    (∀ p q : Position, p ≤ q → (d.offsetAt p ≤ d.offsetAt q ↔ ¬ d.Overshoots p q)) ∧
    (∀ e : Edit, ¬ d.Overshoots e.range.start e.range.stop →
      d.offsetAt e.range.start ≤ d.offsetAt e.range.stop ∧
      d.offsetAt e.range.stop ≤ t.length ∧
      applyAll t [e] = .ok (t.take (d.offsetAt e.range.start) ++ e.newText ++
        t.drop (d.offsetAt e.range.stop))) ∧
    ∀ (edits : List Edit) (r : Text),
      (∀ e ∈ edits, ¬ d.Overshoots e.range.start e.range.stop) → applyAll t edits = .ok r →
      ∃ ss, ss.Perm (edits.map (splice d)) ∧ r = weave t Splice.newText 0 ss ∧
        weave t (fun _ => []) 0 ss = untouched t ss := by
  intro d
  refine ⟨fun p q => Document.offsetAt_le_iff, ?_, ?_⟩
  · intro e he
    obtain ⟨hordered, hinside⟩ := within_splice_of_not_overshoots he
    exact ⟨hordered, hinside, applyAll_singleton t e⟩
  · intro edits r hedits hr
    exact exists_weave_of_applyAll (fun e he => within_splice_of_not_overshoots (hedits e he)) hr

/-- A span that runs over the end of the text and is cut there. -/
theorem offsetAt_keeps_order_end :
    let t := "ab\ncd".toList
    let d := Document.ofText t
    let e : Edit := ⟨⟨⟨0, 1⟩, ⟨7, 1⟩, by decide⟩, "x".toList⟩
    (e.range.start ≤ e.range.stop ∧ ¬ d.Overshoots e.range.start e.range.stop) ∧
      d.offsetAt e.range.start ≤ d.offsetAt e.range.stop ∧
      applyAll t [e] = .ok "axd".toList ∧
      ∃ ss, ss.Perm [splice d e] ∧ weave t (fun _ => []) 0 ss = untouched t ss := by
  intro t d e
  have hle : e.range.start ≤ e.range.stop := e.range.ordered
  have hnot : ¬ d.Overshoots e.range.start e.range.stop := by
    rintro ⟨hline, -⟩
    exact absurd hline (by decide)
  obtain ⟨horder, hone, hall⟩ := offsetAt_keeps_order t
  have happly := (hone e hnot).2.2
  obtain ⟨ss, hperm, -, hkept⟩ := hall [e] _ (List.forall_mem_singleton.mpr hnot) happly
  exact ⟨⟨hle, hnot⟩, (horder _ _ hle).mpr hnot, happly, ss, hperm, hkept⟩

/-- The end of the last line stands in front of the start of a line behind it, but not as an offset;
and an edit of the span between the two brings the whole text twice. -/
theorem offsetAt_overshoots :
    let t := "ab".toList
    let d := Document.ofText t
    let e : Edit := ⟨⟨⟨0, 2⟩, ⟨1, 0⟩, by decide⟩, []⟩
    e.range.start ≤ e.range.stop ∧ ¬ d.offsetAt e.range.start ≤ d.offsetAt e.range.stop ∧
      applyAll t [e] = .ok "abab".toList := by
  intro t d e
  refine ⟨e.range.ordered, by decide, ?_⟩
  rw [applyAll_singleton]
  rfl

end Edit
end HypnoScript
