/-
# What spacing changes in a line

A spaced line is the line with single spaces put in at some points and some of its characters taken
out (`respaced`).  Which these are is said without going through the cells:

* a point lies between two characters that are no blanks, and nowhere strictly inside of a literal
  or a comment (`StrictlyInside`);
* what is taken out are the spaces and tabs directly in front of a terminator in the code, as far as
  they go back, unless they go back to the start of the line (`GapRun`).

So nothing but spaces and tabs comes or goes, and every other run of blanks is found again between
the same characters (`spaceLine_conservative`).
-/
import HypnoScript.Proofs.Masking.Literals
import HypnoScript.Proofs.Spacing.Line

namespace HypnoScript

open Text (isBlank)

namespace Spacing

/-! ## 1. Spaces put in, characters taken out -/

/-- A text that starts at offset `o`, with a space put in in front of each of the `points`, and
without the characters at the offsets that are `taken`. -/
def respaced (points taken : Nat → Bool) (o : Nat) : Text → Text
  | [] => []
  | c :: cs =>
    (if points o then [' '] else []) ++ (if taken o then [] else [c]) ++
      respaced points taken (o + 1) cs

section Respaced

variable {points taken : Nat → Bool}

theorem respaced_append (u v : Text) : ∀ o, respaced points taken o (u ++ v) =
    respaced points taken o u ++ respaced points taken (o + u.length) v := by
  induction u with
  | nil => exact fun o => rfl
  | cons c u ih =>
    intro o
    have hlength : o + 1 + u.length = o + (c :: u).length := by rw [List.length_cons]; omega
    rw [List.cons_append, respaced, respaced, ih, hlength, List.append_assoc _ _ (_ ++ _),
      List.append_assoc _ _ (respaced points taken (o + 1) u), List.append_assoc, List.append_assoc]

/-- A first character that is left, with nothing put in in front of it, is the first one again. -/
theorem head?_respaced {c : Char} {t : Text} {o : Nat} (hpoint : points o = false)
    (htaken : taken o = false) : (respaced points taken o (c :: t)).head? = some c := by
  rw [respaced, hpoint, htaken]
  rfl

/-- A last character that is left is the last one again. -/
theorem getLast?_respaced {c : Char} {t : Text} {o : Nat} (htaken : taken (o + t.length) = false) :
    (respaced points taken o (t ++ [c])).getLast? = some c := by
  rw [respaced_append, respaced, htaken]
  simp [respaced]

/-- Where nothing is put in and nothing taken out, a text stays as it is. -/
theorem respaced_eq_self {t : Text} : ∀ {o : Nat},
    (∀ i, o ≤ i → i < o + t.length → points i = false ∧ taken i = false) →
    respaced points taken o t = t := by
  induction t with
  | nil => exact fun _ => rfl
  | cons c t ih =>
    intro o h
    obtain ⟨hpoint, htaken⟩ := h o (Nat.le_refl o) (by simp)
    have ih := ih (o := o + 1) fun i hi hlt => h i (by omega) (by rw [List.length_cons]; omega)
    rw [respaced, hpoint, htaken, ih]
    rfl

/-- Only spaces and tabs come and go when only those are taken out. -/
theorem dense_respaced {t : Text} : ∀ {o : Nat},
    (∀ i c, taken (o + i) = true → t[i]? = some c → isGapChar c = true) →
    dense (respaced points taken o t) = dense t := by
  induction t with
  | nil => exact fun _ => rfl
  | cons c t ih =>
    intro o h
    have ih := ih (o := o + 1) fun i d hi hd =>
      h (i + 1) d (by rwa [Nat.add_comm i, ← Nat.add_assoc]) hd
    have hspace : dense (if points o then [' '] else []) = [] := by split <;> decide
    have hchar : dense (if taken o then [] else [c]) = dense [c] := by
      split
      · rename_i htaken
        have hgap := h 0 c htaken rfl
        simp [dense, hgap]
      · rfl
    simp only [dense, respaced, List.filter_append] at hspace hchar ih ⊢
    rw [hspace, hchar, ih, List.nil_append, ← List.filter_append]
    rfl

end Respaced

/-! ## 2. The cells of a line, by their offsets -/

/-- Whether a space is put in in front of an offset. -/
def isPoint (cs : List Cell) (i : Nat) : Bool :=
  i < cs.length && Cut.lacksSpace ⟨(cs.take i).reverse, cs.drop i⟩

/-- Whether the cell at an offset is taken out. -/
def isTaken (cs : List Cell) (i : Nat) : Bool :=
  match cs[i]? with
  | some c => isErased (cs.take i).reverse c (cs.drop (i + 1))
  | none => false

theorem spaceFrom_eq_respaced (cs : List Cell) : ∀ before : List Cell,
    spaceFrom before cs =
      respaced (isPoint (before.reverse ++ cs)) (isTaken (before.reverse ++ cs)) before.length
        (cs.map Cell.raw) := by
  induction cs with
  | nil => exact fun before => rfl
  | cons c cs ih =>
    intro before
    have hpoint : isPoint (before.reverse ++ c :: cs) before.length =
        Cut.lacksSpace ⟨before, c :: cs⟩ := by
      simp [isPoint]
    have htaken : isTaken (before.reverse ++ c :: cs) before.length = isErased before c cs := by
      have hdrop : (before.reverse ++ c :: cs).drop (before.length + 1) = cs := by
        rw [← List.length_reverse, ← List.drop_drop, List.drop_left]
        rfl
      simp [isTaken, hdrop]
    have hrest : (c :: before).reverse ++ cs = before.reverse ++ c :: cs := by simp
    rw [spaceFrom, List.map_cons, respaced, hpoint, htaken, ih (c :: before), hrest]
    rfl

/-! ## 3. The points -/

/-- A point lies behind the first cell, and its two cells are such that a space is missing. -/
theorem missing_of_isPoint {cs : List Cell} {i : Nat} (h : isPoint cs i = true) :
    ∃ j b c, i = j + 1 ∧ cs[j]? = some b ∧ cs[j + 1]? = some c ∧ Missing b c := by
  rw [isPoint, Bool.and_eq_true, decide_eq_true_eq] at h
  obtain ⟨hi, hlacks⟩ := h
  rw [List.drop_eq_getElem_cons hi] at hlacks
  cases i with
  | zero =>
    rw [List.take_zero, List.reverse_nil, not_lacksSpace_nil] at hlacks
    cases hlacks
  | succ j =>
    have hj : j < cs.length := Nat.lt_of_succ_lt hi
    rw [List.take_add_one, List.getElem?_eq_getElem hj, Option.toList_some,
      List.reverse_concat] at hlacks
    exact ⟨j, _, _, rfl, List.getElem?_eq_getElem hj, List.getElem?_eq_getElem hi,
      missing_of_lacksSpace hlacks⟩

end Spacing

/-- A place lies strictly inside of a literal or a comment: some of it stands in front of the place
and some behind it. -/
def StrictlyInside (ps : List Piece) (i : Nat) : Prop :=
  ∃ us p vs, ps = us ++ p :: vs ∧ p.region ≠ .code ∧ (Piece.textOf us).length < i ∧
    i < (Piece.textOf us).length + p.text.length

namespace Piece

open Spacing (Solid)

theorem not_solid_veil (c : Char) : ¬ Solid (veil c) := by
  intro h
  have hblank : isBlank (veil c) = true := by
    unfold veil
    split
    · rename_i hc
      rcases hc with rfl | rfl <;> decide
    · decide
  exact absurd (h.1.symm.trans hblank) Bool.false_ne_true

/-- Of literals and comments nothing is seen but quotation marks and blanks. -/
theorem not_solid_of_mem_shown {p : Piece} (hp : p.region ≠ .code) {x : Char} (hx : x ∈ p.shown) :
    ¬ Solid x := by
  have hveil {t : Text} (hx : x ∈ t.map veil) : ¬ Solid x := by
    obtain ⟨c, -, rfl⟩ := List.mem_map.mp hx
    exact not_solid_veil c
  cases p with
  | code c => exact absurd rfl hp
  | literal body closed =>
    rw [shown, List.mem_cons, List.mem_append] at hx
    rcases hx with rfl | hx | hx
    · exact Spacing.not_solid_quote
    · exact hveil hx
    · cases closed with
      | true =>
        rw [List.mem_singleton.mp hx]
        exact Spacing.not_solid_quote
      | false => cases hx
  | lineComment body => exact hveil hx
  | blockComment body closed => exact hveil hx

theorem length_flatMap_shown (ps : List Piece) :
    (ps.flatMap shown).length = (textOf ps).length := by
  induction ps with
  | nil => rfl
  | cons p ps ih =>
    rw [textOf, List.flatMap_cons, List.flatMap_cons, List.length_append, List.length_append, ih,
      Mask.length_shown]
    rfl

/-- What is seen at an offset inside of a piece is seen of the piece. -/
theorem exists_mem_shown {us : List Piece} (vs : List Piece) {p : Piece} {j : Nat}
    (hle : (textOf us).length ≤ j) (hlt : j < (textOf us).length + p.text.length) :
    ∃ x ∈ p.shown, ((us ++ p :: vs).flatMap shown)[j]? = some x := by
  rw [← length_flatMap_shown] at hle hlt
  rw [Mask.length_shown] at hlt
  have hj : j - (us.flatMap shown).length < p.shown.length := by omega
  refine ⟨_, List.getElem_mem hj, ?_⟩
  rw [List.flatMap_append, List.flatMap_cons, List.getElem?_append_right hle,
    List.getElem?_append_left hj, List.getElem?_eq_getElem hj]

end Piece

namespace Spacing

variable {l : Text}

theorem getElem?_raw_lineCells (i : Nat) : ((lineCells l)[i]?).map Cell.raw = l[i]? := by
  rw [← List.getElem?_map, raw_lineCells]

theorem getElem?_code_lineCells (i : Nat) : ((lineCells l)[i]?).map Cell.code = (masked l)[i]? := by
  rw [← List.getElem?_map, code_lineCells]
  rfl

/-- **No space is put in inside of a literal or a comment**, for of the two characters at a point
one is seen in the masked copy and no quotation mark.  Strictly inside of a piece that is not code,
nothing is seen on either side but its quotation marks. -/
theorem not_strictlyInside {i : Nat} (h : isPoint (lineCells l) i = true)
    {ps : List HypnoScript.Piece} (hps : Decomposes l ps) : ¬ StrictlyInside ps i := by
  rintro ⟨us, p, vs, rfl, hp, hstart, hstop⟩
  obtain ⟨j, b, c, rfl, hb, hc, hmissing⟩ := missing_of_isPoint h
  have hs := allSound_lineCells l
  have hmasked : masked l = (us ++ p :: vs).flatMap Piece.shown := congrArg Mask.text hps.scan
  have hcode {k : Nat} {d : Cell} (hd : (lineCells l)[k]? = some d)
      (hle : (Piece.textOf us).length ≤ k)
      (hlt : k < (Piece.textOf us).length + p.text.length) : ¬ Solid d.code := by
    obtain ⟨x, hx, hk⟩ := Piece.exists_mem_shown vs hle hlt
    rw [← hmasked, ← getElem?_code_lineCells, hd] at hk
    rw [Option.some.inj hk]
    exact Piece.not_solid_of_mem_shown hp hx
  have hsolid := hmissing.solid (hs b (List.mem_of_getElem? hb)) (hs c (List.mem_of_getElem? hc))
  rcases hsolid with h | h
  · exact hcode hb (by omega) (by omega) h
  · exact hcode hc (by omega) hstop h

/-! ## 4. What is taken out -/

/-- The spaces and tabs from `a` up to `b` stand directly in front of a terminator in the code.
They are all that do, and something else stands in front of them in the line. -/
structure GapRun (l : Text) (a b : Nat) : Prop where
  gap : ∀ k, a ≤ k → k < b → ∃ c, l[k]? = some c ∧ isGapChar c = true
  front : 0 < a ∧ ∃ c, l[a - 1]? = some c ∧ isGapChar c = false
  terminator : (masked l)[b]? = some ';'

/-- A terminator is reached over spaces and tabs alone just when there is one, and nothing else
stands in front of it. -/
theorem reachesTerminator_iff {cs : List Cell} : reachesTerminator cs = true ↔
    ∃ n : Nat, (∃ t : Cell, cs[n]? = some t ∧ t.code = ';') ∧
      ∀ k : Nat, k < n → ∃ c : Cell, cs[k]? = some c ∧ isGapChar c.raw = true := by
  induction cs with
  | nil => simp [reachesTerminator]
  | cons c cs ih =>
    rw [reachesTerminator, Bool.or_eq_true, Bool.and_eq_true, beq_iff_eq, ih]
    constructor
    · rintro (hc | ⟨hc, n, ht, hgap⟩)
      · exact ⟨0, ⟨c, rfl, hc⟩, fun k hk => absurd hk (Nat.not_lt_zero k)⟩
      · refine ⟨n + 1, ht, fun k hk => ?_⟩
        cases k with
        | zero => exact ⟨c, rfl, hc⟩
        | succ k => exact hgap k (Nat.lt_of_succ_lt_succ hk)
    · rintro ⟨n, ⟨t, ht, hcode⟩, hgap⟩
      cases n with
      | zero =>
        obtain rfl : c = t := Option.some.inj ht
        exact Or.inl hcode
      | succ n =>
        obtain ⟨d, hd, hraw⟩ := hgap 0 (Nat.succ_pos n)
        obtain rfl : c = d := Option.some.inj hd
        exact Or.inr ⟨hraw, n, ⟨t, ht, hcode⟩, fun k hk => hgap (k + 1) (Nat.succ_lt_succ hk)⟩

theorem any_front_iff {cs : List Cell} {i : Nat} {p : Cell → Bool} :
    (cs.take i).reverse.any p = true ↔ ∃ k < i, ∃ c, cs[k]? = some c ∧ p c = true := by
  rw [List.any_reverse, List.any_eq_true]
  constructor
  · rintro ⟨c, hc, hp⟩
    obtain ⟨k, hk⟩ := List.mem_iff_getElem?.mp hc
    rw [List.getElem?_take] at hk
    split at hk
    · exact ⟨k, ‹_›, c, hk, hp⟩
    · cases hk
  · rintro ⟨k, hk, c, hc, hp⟩
    refine ⟨c, List.mem_iff_getElem?.mpr ⟨k, ?_⟩, hp⟩
    rw [List.getElem?_take, if_pos hk, hc]

/-- Behind the last of some places there is none. -/
theorem exists_last {p : Nat → Prop} {i : Nat} (h : ∃ k < i, p k) :
    ∃ k < i, p k ∧ ∀ m, k < m → m < i → ¬ p m := by
  induction i with
  | zero =>
    obtain ⟨k, hk, -⟩ := h
    exact absurd hk (Nat.not_lt_zero k)
  | succ i ih =>
    by_cases hi : p i
    · exact ⟨i, Nat.lt_succ_self i, hi, fun m hm hlt => absurd hm (by omega)⟩
    · obtain ⟨k, hk, hpk⟩ := h
      have hne : k ≠ i := fun e => hi (e ▸ hpk)
      obtain ⟨j, hj, hpj, hlast⟩ := ih ⟨k, by omega, hpk⟩
      refine ⟨j, by omega, hpj, fun m hm hlt => ?_⟩
      by_cases hmi : m = i
      · rwa [hmi]
      · exact hlast m hm (by omega)

theorem exists_cell {i : Nat} {x : Char} (h : l[i]? = some x) :
    ∃ c, (lineCells l)[i]? = some c ∧ c.raw = x := by
  rwa [← getElem?_raw_lineCells, Option.map_eq_some_iff] at h

theorem raw_of_cell {i : Nat} {c : Cell} (h : (lineCells l)[i]? = some c) : l[i]? = some c.raw := by
  rw [← getElem?_raw_lineCells, h]
  rfl

/-- A cell is taken out when it is a space or a tab, nothing else comes up to the next terminator,
and something else stands in front. -/
theorem isTaken_iff_cells {cs : List Cell} {i : Nat} : isTaken cs i = true ↔
    (∃ c : Cell, cs[i]? = some c ∧ isGapChar c.raw = true) ∧
      reachesTerminator (cs.drop (i + 1)) = true ∧
      ∃ k < i, ∃ c : Cell, cs[k]? = some c ∧ isGapChar c.raw = false := by
  rw [isTaken]
  cases cs[i]? with
  | none => simp
  | some c =>
    simp only [isErased, Bool.and_eq_true, any_front_iff, Bool.not_eq_true', Option.some.injEq,
      exists_eq_left', and_assoc]

/-- **What is taken out of a line** are the runs of spaces and tabs in front of its terminators.  A
cell looks ahead for the terminator and back for something that is no blank; seen from the run these
are the same for all of its cells, which are taken out together. -/
theorem isTaken_iff {i : Nat} : isTaken (lineCells l) i = true ↔
    ∃ a b, GapRun l a b ∧ a ≤ i ∧ i < b := by
  rw [isTaken_iff_cells, reachesTerminator_iff]
  constructor
  · rintro ⟨⟨c, hc, hgap⟩, ⟨n, ⟨t, ht, hcode⟩, hreach⟩, k, hk, d, hd, hfront⟩
    rw [List.getElem?_drop] at ht
    -- The run starts behind the last character in front of `i` that is no space and no tab.
    obtain ⟨j, hj, hfront, hlast⟩ :=
      exists_last (p := fun m => ∃ x, l[m]? = some x ∧ isGapChar x = false)
        ⟨k, hk, d.raw, raw_of_cell hd, hfront⟩
    refine ⟨j + 1, i + 1 + n, ⟨fun m hm hlt => ?_, ⟨Nat.succ_pos j, hfront⟩, ?_⟩, hj, by omega⟩
    · rcases Nat.lt_trichotomy m i with h | rfl | h
      · have hlength : i < (lineCells l).length := (List.getElem?_eq_some_iff.mp hc).1
        have hm' : m < (lineCells l).length := by omega
        have hraw := raw_of_cell (List.getElem?_eq_getElem hm')
        refine ⟨_, hraw, ?_⟩
        rw [← Bool.not_eq_false]
        exact fun hno => hlast m hm h ⟨_, hraw, hno⟩
      · exact ⟨c.raw, raw_of_cell hc, hgap⟩
      · obtain ⟨e, he, hgap⟩ := hreach (m - (i + 1)) (by omega)
        rw [List.getElem?_drop, Nat.add_sub_cancel' (by omega)] at he
        exact ⟨e.raw, raw_of_cell he, hgap⟩
    · rw [← getElem?_code_lineCells, ht, Option.map_some, hcode]
  · rintro ⟨a, b, h, ha, hb⟩
    obtain ⟨x, hx, hgap⟩ := h.gap i ha hb
    obtain ⟨c, hc, rfl⟩ := exists_cell hx
    obtain ⟨hpos, y, hy, hfront⟩ := h.front
    obtain ⟨d, hd, rfl⟩ := exists_cell hy
    obtain ⟨t, ht, hcode⟩ : ∃ t, (lineCells l)[b]? = some t ∧ t.code = ';' := by
      have hterminator := h.terminator
      rwa [← getElem?_code_lineCells, Option.map_eq_some_iff] at hterminator
    refine ⟨⟨c, hc, hgap⟩, ⟨b - (i + 1), ⟨t, ?_, hcode⟩, fun k hk => ?_⟩,
      a - 1, by omega, d, hd, hfront⟩
    · rw [List.getElem?_drop, Nat.add_sub_cancel' (by omega), ht]
    · obtain ⟨z, hz, hgap⟩ := h.gap (i + 1 + k) (by omega) (by omega)
      obtain ⟨e, he, rfl⟩ := exists_cell hz
      exact ⟨e, by rw [List.getElem?_drop, he], hgap⟩

/-! ## 5. What is left -/

/-- The changes to a line are none but those that spacing may make. -/
structure Conserves (l : Text) (points taken : Nat → Bool) : Prop where
  /-- A point lies between two characters that are no blanks, … -/
  between : ∀ i, points i = true → 0 < i ∧ ∃ b c, l[i - 1]? = some b ∧ l[i]? = some c ∧
    isBlank b = false ∧ isBlank c = false
  /-- … and not inside of a literal or a comment. -/
  outside : ∃ ps, Decomposes l ps ∧ ∀ i, points i = true → ¬ StrictlyInside ps i
  /-- What is taken out are the blanks in front of terminators. -/
  taken_iff : ∀ i, taken i = true ↔ ∃ a b, GapRun l a b ∧ a ≤ i ∧ i < b

/-- A run of blanks of a line, with the parts of the line on either side of it. -/
structure BlankRun (u g v : Text) : Prop where
  ne_nil : g ≠ []
  blank : ∀ c ∈ g, isBlank c = true
  front : ∀ c ∈ u.getLast?, isBlank c = false
  behind : ∀ c ∈ v.head?, isBlank c = false

namespace Conserves

variable {points taken : Nat → Bool}

theorem isGapChar_of_taken (h : Conserves l points taken) {i : Nat} {c : Char}
    (ht : taken i = true) (hc : l[i]? = some c) : isGapChar c = true := by
  obtain ⟨a, b, hrun, ha, hb⟩ := (h.taken_iff i).mp ht
  obtain ⟨d, hd, hgap⟩ := hrun.gap i ha hb
  rw [hc] at hd
  rwa [Option.some.inj hd]

theorem not_taken (h : Conserves l points taken) {i : Nat} {c : Char} (hc : l[i]? = some c)
    (hblank : isBlank c = false) : taken i = false := by
  refine Bool.eq_false_iff.mpr fun ht => ?_
  rw [isBlank_of_isGapChar (h.isGapChar_of_taken ht hc)] at hblank
  cases hblank

/-- No space is put in next to a blank. -/
theorem not_point_of_blank (h : Conserves l points taken) {i : Nat} {c : Char}
    (hc : l[i]? = some c) (hblank : isBlank c = true) :
    points i = false ∧ points (i + 1) = false := by
  constructor
  · refine Bool.eq_false_iff.mpr fun hp => ?_
    obtain ⟨-, -, d, -, hd, -, hno⟩ := h.between i hp
    rw [hc] at hd
    rw [Option.some.inj hd, hno] at hblank
    cases hblank
  · refine Bool.eq_false_iff.mpr fun hp => ?_
    obtain ⟨-, d, -, hd, -, hno, -⟩ := h.between (i + 1) hp
    rw [Nat.add_sub_cancel, hc] at hd
    rw [Option.some.inj hd, hno] at hblank
    cases hblank

/-- **A run of blanks of which nothing is taken out is found again**, between what is left of the
parts on either side of it; they still end and start with the same characters. -/
theorem run (h : Conserves l points taken) {u g v : Text} (hl : l = u ++ (g ++ v))
    (hrun : BlankRun u g v)
    (hkept : ∀ i, u.length ≤ i → i < u.length + g.length → taken i = false) :
    ∃ u' v', respaced points taken 0 l = u' ++ (g ++ v') ∧
      u'.getLast? = u.getLast? ∧ v'.head? = v.head? ∧ dense u' = dense u ∧ dense v' = dense v := by
  have hu {i : Nat} (hi : i < u.length) : l[i]? = u[i]? := by
    rw [hl, List.getElem?_append_left hi]
  have hg {i : Nat} (hi : i < g.length) : l[u.length + i]? = g[i]? := by
    rw [hl, List.getElem?_append_right (Nat.le_add_right _ i), Nat.add_sub_cancel_left,
      List.getElem?_append_left hi]
  have hv (i : Nat) : l[u.length + g.length + i]? = v[i]? := by
    rw [hl, ← List.append_assoc, ← List.length_append,
      List.getElem?_append_right (Nat.le_add_right _ i), Nat.add_sub_cancel_left]
  have hpoints {i : Nat} (hi : i < g.length) :
      points (u.length + i) = false ∧ points (u.length + i + 1) = false :=
    h.not_point_of_blank (hg hi ▸ List.getElem?_eq_getElem hi)
      (hrun.blank _ (List.getElem_mem hi))
  have hsame : respaced points taken u.length g = g := by
    refine respaced_eq_self fun i hle hlt => ⟨?_, hkept i hle hlt⟩
    have hpoint := (hpoints (i := i - u.length) (by omega)).1
    rwa [Nat.add_sub_cancel' hle] at hpoint
  refine ⟨respaced points taken 0 u, respaced points taken (u.length + g.length) v,
    ?_, ?_, ?_, dense_respaced fun i c ht hc => ?_, dense_respaced fun i c ht hc => ?_⟩
  · rw [hl, respaced_append, respaced_append, Nat.zero_add, hsame]
  · -- The last character in front of the run is no blank, so it is not taken out.
    rcases List.eq_nil_or_concat u with rfl | ⟨w, c, rfl⟩
    · rfl
    · rw [List.concat_eq_append] at hu hrun ⊢
      have hc : l[w.length]? = some c := by
        rw [hu (by simp), List.getElem?_append_right (Nat.le_refl _), Nat.sub_self]
        rfl
      have htaken := h.not_taken hc (hrun.front c (by simp))
      rw [getLast?_respaced (by rwa [Nat.zero_add]), List.getLast?_concat]
  · -- Nor is the first one behind it, and no space is put in between.
    cases v with
    | nil => rfl
    | cons c v =>
      have htaken := h.not_taken (hv 0) (hrun.behind c rfl)
      have hpos : 0 < g.length := List.length_pos_iff.mpr hrun.ne_nil
      have hpoint := (hpoints (i := g.length - 1) (by omega)).2
      rw [Nat.add_assoc, Nat.sub_add_cancel hpos] at hpoint
      exact head?_respaced hpoint htaken
  · rw [Nat.zero_add] at ht
    exact h.isGapChar_of_taken ht (by rw [hu (List.getElem?_eq_some_iff.mp hc).1, hc])
  · exact h.isGapChar_of_taken ht (by rw [hv, hc])

theorem dense_eq (h : Conserves l points taken) : dense (respaced points taken 0 l) = dense l :=
  dense_respaced fun i c ht hc => by
    rw [Nat.zero_add] at ht
    exact h.isGapChar_of_taken ht hc

end Conserves

/-! ## 6. Spacing -/

/-- The changes that spacing makes to a line. -/
theorem spaceLine_eq_respaced (l : Text) :
    spaceLine l (masked l) = respaced (isPoint (lineCells l)) (isTaken (lineCells l)) 0 l := by
  have h := spaceFrom_eq_respaced (lineCells l) []
  rwa [raw_lineCells] at h

theorem conserves_lineCells (l : Text) :
    Conserves l (isPoint (lineCells l)) (isTaken (lineCells l)) where
  between i hi := by
    obtain ⟨j, b, c, rfl, hb, hc, hmissing⟩ := missing_of_isPoint hi
    have hs := allSound_lineCells l
    exact ⟨Nat.succ_pos j, b.raw, c.raw, raw_of_cell hb, raw_of_cell hc,
      hmissing.raw_before (hs b (List.mem_of_getElem? hb)),
      hmissing.raw_after (hs c (List.mem_of_getElem? hc))⟩
  outside := by
    obtain ⟨ps, hps⟩ := exists_decomposes l
    exact ⟨ps, hps, fun i hi => not_strictlyInside hi hps⟩
  taken_iff i := isTaken_iff

end Spacing

open Spacing in
/-- **Spacing a line puts in single spaces and takes out the blanks in front of terminators, and
does nothing else.**  Each of the spaces stands between two characters that are no blanks, and not
inside of a literal or a comment.  What is taken out are the runs of spaces and tabs in front of the
terminators, as far as they go back and unless they go back to the start of the line.  So any other
run of blanks is found again with its length, and only spaces and tabs come or go.

The line is followed by the number of the character, not from cut to cut: what happens at a number
depends on the line alone and not on what has been written so far, so the changes can be named in
advance. -/
theorem spaceLine_conservative (l : Text) :
    ∃ points taken : Nat → Bool, Conserves l points taken ∧
      spaceLine l (masked l) = respaced points taken 0 l ∧
      (∀ u g v, l = u ++ (g ++ v) → BlankRun u g v →
        (∀ i, u.length ≤ i → i < u.length + g.length → taken i = false) →
        ∃ u' v', spaceLine l (masked l) = u' ++ (g ++ v') ∧ u'.getLast? = u.getLast? ∧
          v'.head? = v.head? ∧ dense u' = dense u ∧ dense v' = dense v) ∧
      dense (spaceLine l (masked l)) = dense l := by
  have h := conserves_lineCells l
  refine ⟨_, _, h, spaceLine_eq_respaced l, fun u g v hl hrun hkept => ?_, ?_⟩
  · rw [spaceLine_eq_respaced]
    exact h.run hl hrun hkept
  · rw [spaceLine_eq_respaced]
    exact h.dense_eq

end HypnoScript
