/-
# Spacing goes by code alone

The masked copy of a spaced line is the spaced masked copy (`scan_spaced`): a space is put in only
where the scan stands in code, between two of its steps, and what is taken out is code as well.  So
no literal and no comment is opened, closed or changed by spacing.

The reason is in two facts about a place that is no code: what stands there is hidden, so none of
its cells is `Solid`, while one of the two cells at a cut that lacks a space is (`Missing.solid`);
and no terminator can be reached from there over blanks alone (`not_reachesTerminator`).

Hence a step of the scan is written whole, whichever step it is (`stepWritten`), and the scan of
the written line makes the same steps (`reads_spaced`): no character that decides about a step is
put in or taken out behind it.
-/
import HypnoScript.Proofs.Spacing.Cells

namespace HypnoScript
namespace Spacing

open Mask

/-! ## 1. Where there is no code -/

theorem not_solid_hide (c : Char) : ¬ Solid (hide c) :=
  fun h => absurd (h.1.symm.trans (isBlank_hide c)) (by decide)

theorem not_solid_space : ¬ Solid ' ' := fun h => absurd h.1 (by decide)

theorem not_solid_quote : ¬ Solid '"' := fun h => h.2 rfl

/-- Whether cells show nothing that only code can show. -/
def Veil (cs : List Cell) : Prop := ∀ c ∈ cs, ¬ Solid c.code

theorem Veil.of_code {cs : List Cell}
    (h : ∀ x ∈ cs.map Cell.code, Text.isBlank x = true ∨ x = '"') : Veil cs := by
  intro c hc hsolid
  rcases h c.code (List.mem_map_of_mem hc) with hb | hq
  · exact absurd (hsolid.1.symm.trans hb) (by decide)
  · exact hsolid.2 hq

theorem Veil.tail {c : Cell} {cs : List Cell} (h : Veil (c :: cs)) : Veil cs :=
  fun x hx => h x (List.mem_cons_of_mem _ hx)

/-- No terminator is among such cells. -/
theorem Veil.reachesTerminator_append {cu cl : List Cell} (h : Veil cu)
    (hcl : reachesTerminator cl = false) : reachesTerminator (cu ++ cl) = false := by
  induction cu with
  | nil => exact hcl
  | cons c cu ih =>
    have hc : c.code ≠ ';' := fun e => h c List.mem_cons_self (e ▸ ⟨by decide, by decide⟩)
    simp [reachesTerminator, hc, ih h.tail]

/-- Nor is one reached over cells that start with no blank. -/
theorem Veil.not_reachesTerminator {cu : List Cell} (h : Veil cu) (hne : cu ≠ [])
    (hgap : ∀ c ∈ cu, isGapChar c.raw = false) (cl : List Cell) :
    reachesTerminator (cu ++ cl) = false := by
  obtain ⟨c, cu, rfl⟩ := List.exists_cons_of_ne_nil hne
  have hc : c.code ≠ ';' := fun e => h c List.mem_cons_self (e ▸ ⟨by decide, by decide⟩)
  simp [reachesTerminator, hc, hgap c List.mem_cons_self]

/-- Cells of a text and its masked copy, parted where a step of the scan ends. -/
theorem exists_cells_of_step {r r' : Region} {u v rest : Text} {cs : List Cell}
    (h : Reads rest r u v r') (hraw : cs.map Cell.raw = u ++ rest)
    (hcode : cs.map Cell.code = (scan r (cs.map Cell.raw)).text) :
    ∃ cu cl, cs = cu ++ cl ∧ cu.map Cell.raw = u ∧ cu.map Cell.code = v ∧
      cl.map Cell.raw = rest ∧ cl.map Cell.code = (scan r' (cl.map Cell.raw)).text := by
  obtain ⟨cu, cl, rfl, hu, hl⟩ := List.map_eq_append_iff.mp hraw
  rw [hraw, h.text, List.map_append] at hcode
  obtain ⟨hv, hcl⟩ := List.append_inj hcode (by rw [List.length_map, ← h.length_eq, ← hu,
    List.length_map])
  exact ⟨cu, cl, rfl, hu, hv, hl, hl ▸ hcl⟩

/-- A cell that is no blank is no space and no tab. -/
theorem not_gapChar_of_map {cs : List Cell}
    (h : ∀ x ∈ cs.map Cell.raw, Text.isBlank x = false) : ∀ c ∈ cs, isGapChar c.raw = false :=
  fun c hc => Bool.eq_false_iff.mpr fun hg =>
    absurd ((h c.raw (List.mem_map_of_mem hc)).symm.trans (isBlank_of_isGapChar hg)) (by decide)

/-- **Out of a literal or a comment no terminator is reached over blanks alone.** -/
theorem not_reachesTerminator {r : Region} (hr : r ≠ .code) {cs : List Cell}
    (hcode : cs.map Cell.code = (scan r (cs.map Cell.raw)).text) :
    reachesTerminator cs = false := by
  generalize hl : cs.map Cell.raw = l at hcode
  rw [← hl] at hcode
  induction r, l using reads_induction generalizing cs with
  | nil r =>
    obtain rfl := List.map_eq_nil_iff.mp hl
    rfl
  | newline r l ih =>
    obtain ⟨c, cs, rfl, hc, -⟩ := List.map_eq_cons_iff.mp hl
    simp only [List.map_cons, hc, scan_newline, text_pushLine, List.cons.injEq] at hcode
    simp [reachesTerminator, hcode.1, hc, isGapChar]
  | step r u v r' l h ih =>
    obtain ⟨cu, cl, rfl, rfl, rfl, hl, hcl⟩ := exists_cells_of_step h hl hcode
    obtain ⟨hveil, hopen⟩ := h.code_or_veiled.resolve_left fun hc => hr hc.1
    by_cases hr' : r' = .code
    · have hne : cu ≠ [] := fun e => h.ne_nil (e ▸ rfl)
      exact (Veil.of_code hveil).not_reachesTerminator hne
        (not_gapChar_of_map (hopen (Or.inr hr'))) cl
    · exact (Veil.of_code hveil).reachesTerminator_append (ih hr' hl hcl)

/-- Whether the cell nearest in front, if there is one, is hidden or a quotation mark. -/
def Quiet (before : List Cell) : Prop := ∀ b bs, before = b :: bs → b.Sound ∧ ¬ Solid b.code

theorem Quiet.cons {c : Cell} (hc : c.Sound) (h : ¬ Solid c.code) (before : List Cell) :
    Quiet (c :: before) := by
  rintro b bs e
  rw [List.cons.injEq] at e
  exact e.1 ▸ ⟨hc, h⟩

/-- Behind cells that show no code it is quiet. -/
theorem Quiet.reverse_append {cu before : List Cell} (hs : AllSound cu) (h : Veil cu)
    (hb : cu = [] → Quiet before) : Quiet (cu.reverse ++ before) := by
  rcases List.eq_nil_or_concat cu with rfl | ⟨cu, c, rfl⟩
  · exact hb rfl
  · have hc : c ∈ cu.concat c := by simp
    rw [List.concat_eq_append, List.reverse_append]
    exact Quiet.cons (hs c hc) (h c hc) _

/-- Where nothing is code, a cell stays as it is. -/
theorem spaced_quiet {before : List Cell} {c : Cell} {cs : List Cell} (hs : AllSound (c :: cs))
    (hb : Quiet before) (hc : ¬ Solid c.code)
    (hr : isGapChar c.raw = true → reachesTerminator cs = false) :
    spaced before (c :: cs) = c :: spaced (c :: before) cs := by
  cases step_spaced before hs with
  | keep _ _ eq => exact eq
  | part b bs front missing _ =>
    obtain ⟨hbs, hb⟩ := hb b bs front
    exact absurd (missing.solid hbs hs.head) (not_or.mpr ⟨hb, hc⟩)
  | erase gap reaches _ _ _ _ _ _ _ =>
    exact absurd ((hr gap).symm.trans reaches) Bool.false_ne_true

/-- **Where nothing is code, cells stay as they are**, whatever comes behind them. -/
theorem spaced_veil {before cu cl : List Cell} (hs : AllSound (cu ++ cl)) (hb : Quiet before)
    (h : Veil cu)
    (hgap : reachesTerminator cl = false ∨ ∀ c ∈ cu, isGapChar c.raw = false) :
    spaced before (cu ++ cl) = cu ++ spaced (cu.reverse ++ before) cl := by
  induction cu generalizing before with
  | nil => rfl
  | cons c cu ih =>
    rw [List.cons_append] at hs ⊢
    have hc : ¬ Solid c.code := h c List.mem_cons_self
    have hstay : isGapChar c.raw = true → reachesTerminator (cu ++ cl) = false := by
      intro hg
      rcases hgap with hcl | hgap
      · exact h.tail.reachesTerminator_append hcl
      · exact absurd ((hgap c List.mem_cons_self).symm.trans hg) (by decide)
    have hrest := ih hs.tail (Quiet.cons hs.head hc before) h.tail
      (hgap.imp_right fun hg x hx => hg x (List.mem_cons_of_mem _ hx))
    rw [spaced_quiet hs hb hc hstay, hrest, List.reverse_cons, List.append_assoc]
    rfl

/-! ## 2. Where there is code -/

/-- A spaced line starts as the line did, or with a space or a terminator. -/
theorem head_raw_spaced {d : Char} {before cs : List Cell} (hs : AllSound cs)
    (h : ((spaced before cs).map Cell.raw).head? = some d) :
    (cs.map Cell.raw).head? = some d ∨ d = ' ' ∨ d = ';' := by
  simp only [List.head?_map] at h ⊢
  rcases head_spaced before hs with e | e | ⟨t, _, e, hts, ht, -, -⟩
  · exact Or.inl (e ▸ h)
  · rw [e] at h
    exact Or.inr (Or.inl (Option.some.inj h).symm)
  · have hraw : t.raw = ';' := (hts.code_eq_raw (ht ▸ by decide)).symm.trans ht
    rw [e, Option.map_some, hraw] at h
    exact Or.inr (Or.inr (Option.some.inj h).symm)

/-- No comment opens that did not open before. -/
theorem opensComment_of_spaced {c : Char} {before cs : List Cell} (hs : AllSound cs)
    (h : OpensComment c ((spaced before cs).map Cell.raw)) : OpensComment c (cs.map Cell.raw) := by
  refine ⟨h.1, ?_⟩
  rcases h.2 with h | h
  · exact Or.inl ((head_raw_spaced hs h).resolve_right (by decide))
  · exact Or.inr ((head_raw_spaced hs h).resolve_right (by decide))

/-- No comment closes that did not close before. -/
theorem closesComment_of_spaced {c : Char} {before cs : List Cell} (hs : AllSound cs)
    (h : ClosesComment c ((spaced before cs).map Cell.raw)) :
    ClosesComment c (cs.map Cell.raw) :=
  ⟨h.1, (head_raw_spaced hs h.2).resolve_right (by decide)⟩

/-- Nothing is escaped at the end of a line, spaced or not. -/
theorem escapes_of_spaced {c : Char} {before cs : List Cell} (hn : '\n' ∉ cs.map Cell.raw)
    (h : Escapes c ((spaced before cs).map Cell.raw)) : Escapes c (cs.map Cell.raw) := by
  obtain ⟨hc, d, hd, -⟩ := h
  cases cs with
  | nil => simp [spaced] at hd
  | cons e cs => exact ⟨hc, e.raw, rfl, fun h => hn (h ▸ List.mem_cons_self)⟩

@[simp] theorem scan_code_space (t : Text) : scan .code (' ' :: t) = (scan .code t).push ' ' :=
  scan_code (by decide) (by decide) fun h => absurd h.1 (by decide)

@[simp] theorem behind_code_space (t : Text) :
    Region.code.behind (' ' :: t) = Region.code.behind t :=
  behind_code (by decide) (by decide) fun h => absurd h.1 (by decide)

/-- What is written for the cells of one step of the scan: the cells, the cells behind a space that
is put in, or nothing.  The last two happen only where the step starts in code. -/
inductive StepWritten (before cu cl : List Cell) (r r' : Region) : Prop
  | kept (eq : spaced before (cu ++ cl) = cu ++ spaced (cu.reverse ++ before) cl)
  | parted (code : r = .code)
      (eq : spaced before (cu ++ cl) = gapCell :: (cu ++ spaced (cu.reverse ++ before) cl))
  | erased (code : r = .code) (code' : r' = .code)
      (eq : spaced before (cu ++ cl) = spaced (cu.reverse ++ before) cl)

/-- **Spacing leaves the steps of the scan whole.**  Inside of a literal or a comment it writes the
cells of a step as they are; where one starts, it may put in a space in front of the step. -/
theorem stepWritten {before cu cl : List Cell} {rest : Text} {r r' : Region}
    (h : Reads rest r (cu.map Cell.raw) (cu.map Cell.code) r') (hs : AllSound (cu ++ cl))
    (hquiet : r ≠ .code → Quiet before)
    (hcl : cl.map Cell.code = (scan r' (cl.map Cell.raw)).text) :
    StepWritten before cu cl r r' ∧ (r' ≠ .code → Quiet (cu.reverse ++ before)) := by
  rcases h.code_or_veiled with ⟨rfl, rfl, x, hx, -⟩ | ⟨hveil, hopen⟩
  · obtain ⟨c, rfl, -⟩ := List.map_eq_singleton_iff.mp hx
    refine ⟨?_, fun hr => absurd rfl hr⟩
    cases step_spaced before hs with
    | keep _ _ eq => exact .kept eq
    | part _ _ _ _ eq => exact .parted rfl eq
    | erase _ _ _ _ _ _ _ _ eq => exact .erased rfl rfl eq
  have hveil : Veil cu := Veil.of_code hveil
  have hne : cu ≠ [] := fun e => h.ne_nil (e ▸ rfl)
  refine ⟨?_, fun _ => Quiet.reverse_append (fun c hc => hs c (List.mem_append_left _ hc)) hveil
    fun e => absurd e hne⟩
  by_cases hr : r = .code
  · -- Only in front of its first cell is there code.
    have hgap := not_gapChar_of_map (hopen (Or.inl hr))
    obtain ⟨c, cu, rfl⟩ := List.exists_cons_of_ne_nil hne
    rw [List.cons_append] at hs
    have hrest := spaced_veil hs.tail (Quiet.cons hs.head (hveil c List.mem_cons_self) before)
      hveil.tail (Or.inr fun x hx => hgap x (List.mem_cons_of_mem _ hx))
    have hbefore : (c :: cu).reverse ++ before = cu.reverse ++ c :: before := by simp
    cases step_spaced before hs with
    | keep _ _ eq => exact .kept (by rw [hbefore, List.cons_append, eq, hrest]; rfl)
    | part _ _ _ _ eq => exact .parted hr (by rw [hbefore, List.cons_append, eq, hrest]; rfl)
    | erase gap _ _ _ _ _ _ _ _ =>
      exact absurd ((hgap c List.mem_cons_self).symm.trans gap) (by decide)
  · refine .kept (spaced_veil hs (hquiet hr) hveil ?_)
    by_cases hr' : r' = .code
    · exact Or.inr (not_gapChar_of_map (hopen (Or.inr hr')))
    · exact Or.inl (not_reachesTerminator hr' hcl)

/-- A step is made in front of the spaced cells as in front of the cells. -/
theorem reads_spaced (before : List Cell) {cl : List Cell} {r r' : Region} {u v : Text}
    (h : Reads (cl.map Cell.raw) r u v r') (hs : AllSound cl) (hn : '\n' ∉ cl.map Cell.raw) :
    Reads ((spaced before cl).map Cell.raw) r u v r' :=
  h.mono (fun _ => opensComment_of_spaced hs) (fun _ => escapes_of_spaced hn)
    fun _ => closesComment_of_spaced hs

/-- **The masked copy of a spaced line is the spaced masked copy**, and the line ends in the region
in which it ended.  The scan makes the same steps on both; it only reads spaces more or less where
it stands in code. -/
theorem scan_spaced (r : Region) {before cs : List Cell} (hs : AllSound cs)
    (hquiet : r ≠ .code → Quiet before) (hn : '\n' ∉ cs.map Cell.raw)
    (hcode : cs.map Cell.code = (scan r (cs.map Cell.raw)).text) :
    (scan r ((spaced before cs).map Cell.raw)).text = (spaced before cs).map Cell.code ∧
      r.behind ((spaced before cs).map Cell.raw) = r.behind (cs.map Cell.raw) := by
  generalize hl : cs.map Cell.raw = l at hn
  induction r, l using reads_induction generalizing before cs with
  | nil r =>
    obtain rfl := List.map_eq_nil_iff.mp hl
    simp [spaced]
  | newline r l ih => exact absurd List.mem_cons_self hn
  | step r u v r' l h ih =>
    obtain ⟨cu, cl, rfl, rfl, rfl, rfl, hcl⟩ := exists_cells_of_step h hl hcode
    have hn' : '\n' ∉ cl.map Cell.raw := fun hm => hn (List.mem_append_right _ hm)
    have hs' : AllSound cl := fun c hc => hs c (List.mem_append_right _ hc)
    obtain ⟨hwritten, hquiet'⟩ := stepWritten h hs hquiet hcl
    obtain ⟨ihtext, ihbehind⟩ := ih hs' hquiet' hcl rfl hn'
    have h' := reads_spaced (cu.reverse ++ before) h hs' hn'
    have htext := h'.text
    have hbehind := h'.behind
    rw [ihtext] at htext
    rw [ihbehind, ← h.behind] at hbehind
    cases hwritten with
    | kept eq =>
      rw [eq, List.map_append, List.map_append]
      exact ⟨htext, hbehind⟩
    | parted code eq =>
      obtain rfl := code
      rw [eq, List.map_cons, List.map_cons, List.map_append, List.map_append]
      exact ⟨(congrArg Mask.text (scan_code_space _)).trans (congrArg (' ' :: ·) htext),
        (behind_code_space _).trans hbehind⟩
    | erased code code' eq =>
      obtain rfl := code
      obtain rfl := code'
      rw [eq, h.behind]
      exact ⟨ihtext, ihbehind⟩

end Spacing
end HypnoScript
