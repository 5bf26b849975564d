/-
# How far members reach

The members of a session start inside of it.  Where a member ends is looked for in the whole text
behind its name: at the brace that closes the first one opened there.  A member without braces of
its own so may take those of a block behind its session.  It outruns the session then, if that block
goes on to a line further down (`Outruns`), and a member ends inside its session in all other cases
(`members_contained`): a brace that is opened in front of the closing one of the session is opened
inside of it, and blocks do not cross.
-/
import HypnoScript.Proofs.Outline.Listed

namespace HypnoScript

/-! ## 1. Lines of two offsets -/

namespace Document

variable {t : Text} {o o' : Nat}

/-- An offset further on stands on a line further down just if there is a newline on the way. -/
theorem line_positionAt_lt_iff (h : o ≤ o') (ho' : o' ≤ (masked t).length) :
    ((ofText t).positionAt o).line < ((ofText t).positionAt o').line ↔
      '\n' ∈ ((masked t).take o').drop o := by
  have hsplit : ((masked t).take o').count '\n' =
      ((masked t).take o).count '\n' + (((masked t).take o').drop o).count '\n' := by
    rw [← List.count_append, ← Nat.min_eq_left h, ← List.take_take, Nat.min_eq_left h,
      List.take_append_drop]
  rw [line_positionAt_eq_count (Nat.le_trans h ho'), line_positionAt_eq_count ho', hsplit,
    ← List.count_pos_iff]
  exact Nat.lt_add_right_iff_pos

theorem line_positionAt_mono (h : o ≤ o') :
    ((ofText t).positionAt o).line ≤ ((ofText t).positionAt o').line := by
  rcases (ofText t).positionAt_mono (Int.ofNat_le.mpr h) with hlt | ⟨heq, -⟩
  · exact Nat.le_of_lt hlt
  · exact Nat.le_of_eq heq

end Document

namespace Outline

/-! ## 2. Members that outrun their session -/

/-- From `o` and from `o'` on, blocks are looked for in the code.  The first one is opened at `i`
and closed at `e`; the other one is opened at `i'`, behind that, and stops on a line further
down. -/
structure Outruns (code : Text) (o o' i e i' : Nat) : Prop where
  opens : OpensAt code o i
  closes : closingAt? code i = some e
  behind : OpensAt code o' i'
  outside : e < i'
  lower : '\n' ∈ (code.take (stopOf code i')).drop e

section Offsets

variable {code : Text} {o o' i i' : Nat}

/-- Where two blocks are opened, the second one outruns the first if it is opened behind it and a
newline follows before it stops. -/
theorem exists_outruns_iff (hi : OpensAt code o i) (hi' : OpensAt code o' i') :
    (∃ j e j', Outruns code o o' j e j') ↔
      ∃ e, closingAt? code i = some e ∧ e < i' ∧ '\n' ∈ (code.take (stopOf code i')).drop e := by
  constructor
  · rintro ⟨j, e, j', hout⟩
    obtain rfl := hi.unique hout.opens
    obtain rfl := hi'.unique hout.behind
    exact ⟨e, hout.closes, hout.outside, hout.lower⟩
  · rintro ⟨e, hcloses, houtside, hlower⟩
    exact ⟨i, e, i', hi, hcloses, hi', houtside, hlower⟩

/-- **The first brace behind an offset further on** is closed no later, or is opened behind the
closing brace. -/
theorem OpensAt.stopOf_le_or_lt (hi : OpensAt code o i) (hi' : OpensAt code o' i') (ho : o ≤ o') :
    stopOf code i' ≤ stopOf code i ∨ ∃ e, closingAt? code i = some e ∧ e < i' := by
  cases hclose : closingAt? code i with
  | none =>
    rw [stopOf_of_unclosed hclose]
    exact Or.inl (stopOf_le code i')
  | some e =>
    rcases Nat.lt_trichotomy i' e with hinside | rfl | houtside
    · have hle : i ≤ i' := by
        apply Nat.le_of_not_lt
        intro hlt
        exact hi.first i' (Nat.le_trans ho hi'.le) hlt hi'.brace
      obtain ⟨e', he', hclose'⟩ := closingAt?_nested hi.brace hclose hle hinside hi'.brace
      rw [stopOf_of_closed hclose, stopOf_of_closed hclose']
      exact Or.inl he'
    · have hbrace := getElem?_of_closingAt? hclose
      rw [hi'.brace] at hbrace
      cases hbrace
    · exact Or.inr ⟨e, rfl, houtside⟩

end Offsets

/-! ## 3. Members and their session -/

section Blocks

variable {t : Text} {forms forms' : List Form} {b m : Block}

namespace Block.Declared

/-- A symbol is selected where the name of its block stands. -/
theorem offsetAt_selection (h : b.Declared (.ofText t) forms) (cs : List Symbol) :
    (Document.ofText t).offsetAt (b.toSymbol (.ofText t) cs).selection.start =
      b.nameAt (.ofText t) := by
  have hline : min b.line (Document.ofText t).lastLine = b.line :=
    Nat.min_eq_left (Nat.le_sub_one_of_lt h.line_lt)
  have hcolumn : min b.heading.column ((Document.ofText t).lineLength b.line) = b.heading.column :=
    Nat.min_eq_left (Nat.le_trans (Nat.le_add_right _ _) h.column_add_le)
  change (Document.ofText t).lineStart (min b.line (Document.ofText t).lastLine) +
    min b.heading.column
      ((Document.ofText t).lineLength (min b.line (Document.ofText t).lastLine)) = _
  rw [hline, hcolumn, Block.nameAt]

/-- Names on lines further down stand further on. -/
theorem nameAt_le_nameAt (hb : b.Declared (.ofText t) forms) (hm : m.Declared (.ofText t) forms')
    (hline : b.line < m.line) : b.nameAt (.ofText t) ≤ m.nameAt (.ofText t) := by
  apply Nat.le_of_not_le
  intro hle
  apply Nat.not_le_of_lt hline
  rw [← hb.count_take_nameAt, ← hm.count_take_nameAt]
  exact (List.take_sublist_take_left hle).count_le _

/-- **How far a block reaches that starts inside of another one.**  It ends no later, unless it
outruns the other one: a first brace in front of the closing one of the outer block is opened inside
of it, and blocks do not cross. -/
theorem endLine_le_iff (hb : b.Declared (.ofText t) forms) (hm : m.Declared (.ofText t) forms')
    (hline : b.line < m.line) (hend : m.line < b.endLine) :
    m.endLine ≤ b.endLine ↔
      ¬ ∃ i e i', Outruns (masked t) (b.nameAt (.ofText t)) (m.nameAt (.ofText t)) i e i' := by
  -- the outer block is opened, as it has more than one line
  obtain ⟨i, hi⟩ : ∃ i, OpensAt (masked t) (b.nameAt (.ofText t)) i := by
    apply Classical.byContradiction
    intro hnone
    have hown := hb.endLine_of_not_opensAt fun i hi => hnone ⟨i, hi⟩
    omega
  by_cases hopens : ∃ i', OpensAt (masked t) (m.nameAt (.ofText t)) i'
  · obtain ⟨i', hi'⟩ := hopens
    rw [hb.endLine_of_opensAt hi, hm.endLine_of_opensAt hi', exists_outruns_iff hi hi']
    rcases hi.stopOf_le_or_lt hi' (hb.nameAt_le_nameAt hm hline) with hle | ⟨e, hclose, hlt⟩
    · refine iff_of_true (Document.line_positionAt_mono hle) ?_
      rintro ⟨e, hclose, hlt, -⟩
      have hstop := hi'.le_stopOf
      rw [stopOf_of_closed hclose] at hle
      omega
    · have hstop : e ≤ stopOf (masked t) i' := Nat.le_trans (Nat.le_of_lt hlt) hi'.le_stopOf
      rw [stopOf_of_closed hclose, ← Nat.not_lt,
        Document.line_positionAt_lt_iff hstop (stopOf_le _ _)]
      refine not_congr ⟨?_, ?_⟩
      · intro hlower
        exact ⟨e, hclose, hlt, hlower⟩
      · rintro ⟨e', hclose', -, hlower⟩
        rw [hclose, Option.some.injEq] at hclose'
        exact hclose' ▸ hlower
  · -- the inner block is its line alone
    rw [hm.endLine_of_not_opensAt fun i' hi' => hopens ⟨i', hi'⟩]
    refine iff_of_true (Nat.le_of_lt hend) ?_
    rintro ⟨j, e, i', hout⟩
    exact hopens ⟨i', hout.behind⟩

end Block.Declared

/-- Of two symbols the one stops no later just if its last line is no later. -/
theorem toSymbol_stop_le_iff {d : Document} {cs cs' : List Symbol} :
    (m.toSymbol d cs').range.stop ≤ (b.toSymbol d cs).range.stop ↔ m.endLine ≤ b.endLine := by
  change (m.endLine < b.endLine ∨ m.endLine = b.endLine ∧
    d.lineLength m.endLine ≤ d.lineLength b.endLine) ↔ _
  constructor
  · rintro (hlt | ⟨heq, -⟩)
    · exact Nat.le_of_lt hlt
    · exact Nat.le_of_eq heq
  · intro hle
    rcases Nat.lt_or_eq_of_le hle with hlt | heq
    · exact Or.inl hlt
    · exact Or.inr ⟨heq, heq ▸ Nat.le_refl _⟩

/-- **Members start inside their session, and end there unless they outrun it.**  That they start
there is how they are looked for.  Where they end is looked for in the whole text, and a member
without a brace of its own takes the next one that comes, which may be that of a block behind the
session. -/
theorem members_contained (t : Text) : ∀ s ∈ symbols t, ∀ m ∈ s.children,
    s.range.start ≤ m.range.start ∧
      (m.range.stop ≤ s.range.stop ↔ ¬ ∃ i e i', Outruns (masked t)
        ((Document.ofText t).offsetAt s.selection.start)
        ((Document.ofText t).offsetAt m.selection.start) i e i') := by
  intro s hs m hm
  obtain ⟨b, hb, rfl⟩ := mem_symbols_iff.mp hs
  obtain ⟨-, b', hb', rfl⟩ := mem_childrenOf_iff.mp hm
  obtain ⟨hblock, hbelow, habove⟩ := of_mem_memberBlocks hb'
  have hsession := (declared_of_blockAt? (blockAt?_of_mem_blocks hb)).2
  have hmember := (declared_of_blockAt? hblock).2
  refine ⟨Or.inl hbelow, ?_⟩
  rw [hsession.offsetAt_selection, hmember.offsetAt_selection, toSymbol_stop_le_iff]
  exact hsession.endLine_le_iff hmember hbelow habove

/-- A member with a block of its own lies inside its session, though another session follows. -/
theorem members_contained_block :
    let t := "session A \x7b\n  trigger g \x7b \x7d\n\x7d\nsession B \x7b\n\x7d".toList
    let m := Block.toSymbol ⟨⟨"g".toList, 10, triggerForm⟩, 1, 0⟩ (.ofText t) []
    let s := Block.toSymbol ⟨⟨"A".toList, 8, sessionForm⟩, 0, 2⟩ (.ofText t) [m]
    (s ∈ symbols t ∧ m ∈ s.children) ∧ s.range.start ≤ m.range.start ∧
      m.range.stop ≤ s.range.stop := by
  intro t m s
  have hs : s ∈ symbols t := by
    have hsymbols : symbols t =
        [s, Block.toSymbol ⟨⟨"B".toList, 8, sessionForm⟩, 3, 1⟩ (.ofText t) []] := rfl
    rw [hsymbols]
    exact List.mem_cons_self
  have hm : m ∈ s.children := List.mem_cons_self
  obtain ⟨hstart, hstop⟩ := members_contained t s hs m hm
  have hopens : OpensAt (masked t) ((Document.ofText t).offsetAt s.selection.start) 10 := by
    decide +kernel
  have hbehind : OpensAt (masked t) ((Document.ofText t).offsetAt m.selection.start) 24 := by
    decide +kernel
  have hcloses : closingAt? (masked t) 10 = some 28 := by decide +kernel
  have hinside : ¬ ∃ i e i', Outruns (masked t)
      ((Document.ofText t).offsetAt s.selection.start)
      ((Document.ofText t).offsetAt m.selection.start) i e i' := by
    rw [exists_outruns_iff hopens hbehind, hcloses]
    rintro ⟨e, he, hlt, -⟩
    rw [Option.some.injEq] at he
    omega
  exact ⟨⟨hs, hm⟩, hstart, hstop.mpr hinside⟩

/-- A member without one ends where the next session does. -/
theorem member_outruns_session :
    let t := "session A \x7b\n  suggestion f\n\x7d\nsession B \x7b\n\x7d".toList
    ¬ ∀ s ∈ symbols t, ∀ m ∈ s.children,
      s.range.start ≤ m.range.start ∧ m.range.stop ≤ s.range.stop := by
  intro t hinside
  let m := Block.toSymbol ⟨⟨"f".toList, 13, suggestionForm⟩, 1, 3⟩ (.ofText t) []
  let s := Block.toSymbol ⟨⟨"A".toList, 8, sessionForm⟩, 0, 2⟩ (.ofText t) [m]
  have hs : s ∈ symbols t := by
    have hsymbols : symbols t =
        [s, Block.toSymbol ⟨⟨"B".toList, 8, sessionForm⟩, 3, 1⟩ (.ofText t) []] := rfl
    rw [hsymbols]
    exact List.mem_cons_self
  have hstop := (hinside s hs m List.mem_cons_self).2
  revert hstop
  decide

end Blocks
end Outline
end HypnoScript
