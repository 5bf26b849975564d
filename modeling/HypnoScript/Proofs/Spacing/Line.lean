/-
# The cells of a whole line

Cells are a line (`IsLine`) when they are what is made of their characters: the code of each is its
masked copy, for a line that starts in code, and its mark is the one read off that copy.  The cells
of a line are one (`isLine_lineCells`), and a line is the cells of its characters
(`IsLine.lineCells_eq`), so what spacing does to a line is told by what it does to its cells.

* `IsLine.spaced`: a spaced line is a line, and settled.
* `IsLine.indented`: so is one that is cut at its ends and indented.
* `spaceLine_spaceLine`: a line that is spaced twice is as it is when it is spaced once.
-/
import HypnoScript.Proofs.Masking.Lexemes
import HypnoScript.Proofs.Spacing.Masking
import HypnoScript.Proofs.Spacing.Tokens

namespace HypnoScript
namespace Spacing

open Mask
open Text (Gap)

/-! ## 1. The marks of a line -/

/-- Only characters of operators are marked. -/
def Marked (c : Char) (m : Mark) : Prop := m.opens = true ∨ m.closes = true → c ∈ operatorChars

theorem unmarked (c : Char) : Marked c ⟨false, false⟩ := by simp [Marked]

theorem marked_marksFrom (v t : Text) : List.Forall₂ Marked t (marksFrom v (pieces t)) := by
  have hsingle : ∀ a ∈ spacedSingles, a ∈ operatorChars :=
    List.forall_iff_forall_mem.mp (by decide)
  have hpair : ∀ q ∈ spacedPairs, q.1 ∈ operatorChars ∧ q.2 ∈ operatorChars :=
    List.forall_iff_forall_mem.mp (by decide)
  have cons {v : Text} (a : Char) {t : Text} {ps : List Piece}
      (h : List.Forall₂ Marked t (marksFrom (a :: v) ps)) :
      List.Forall₂ Marked (a :: t) (marksFrom v (single a :: ps)) := by
    rw [marksFrom_single]
    refine .cons ?_ h
    split
    · exact fun _ => hsingle a ‹_ ∧ _›.1
    · exact unmarked a
  fun_induction pieces t generalizing v with
  | case1 => exact .nil
  | case2 a => exact cons a .nil
  | case3 a b t p hp ih =>
    unfold pair? at hp
    split at hp
    · obtain rfl := Option.some.inj hp
      obtain ⟨ha, hb⟩ := hpair _ ‹(a, b) ∈ spacedPairs›
      rw [marksFrom]
      split
      · exact .cons (fun _ => ha) (.cons (fun _ => hb) (ih _))
      · exact .cons (unmarked a) (.cons (unmarked b) (ih _))
    · split at hp
      · obtain rfl := Option.some.inj hp
        exact .cons (unmarked a) (.cons (unmarked b) (ih _))
      · exact absurd hp (by simp)
  | case4 a b t hp ih => exact cons a (ih _)

/-- The marks of two texts in a row, when no operator runs over the cut between them. -/
theorem marksFrom_append (v : Text) (ps qs : List Piece) :
    marksFrom v (ps ++ qs) =
      marksFrom v ps ++ marksFrom ((ps.flatMap Piece.text).reverse ++ v) qs := by
  induction ps generalizing v with
  | nil => rfl
  | cons p ps ih =>
    cases p with
    | other c => simp [marksFrom, ih, Piece.text]
    | operator symbol spaced => simp [marksFrom, ih, Piece.text, List.append_assoc]

theorem pieces_of_blank {s : Text} (h : ∀ c ∈ s, Text.isBlank c = true) :
    pieces s = s.map .other := by
  induction s with
  | nil => rfl
  | cons c s ih =>
    rw [pieces_blank_cons (h c List.mem_cons_self), ih fun d hd => h d (List.mem_cons_of_mem _ hd)]
    rfl

/-- Blanks at the end are read on their own. -/
theorem pieces_append_blank {s : Text} (h : ∀ c ∈ s, Text.isBlank c = true) (t : Text) :
    pieces (t ++ s) = pieces t ++ s.map .other := by
  fun_induction pieces t with
  | case1 => exact pieces_of_blank h
  | case2 a =>
    have hnone : ∀ b ∈ s.head?, pair? a b = none := fun b hb => by
      have hb := h b (List.mem_of_mem_head? hb)
      refine pair?_eq_none (not_operatorChar_of_blank hb) ?_ a
      rintro rfl
      exact absurd hb (by decide)
    rw [List.singleton_append, pieces_cons hnone, pieces_of_blank h]
    rfl
  | case3 a b t p hp ih =>
    rw [List.cons_append, List.cons_append, pieces_pair hp, ih]
    rfl
  | case4 a b t hp ih =>
    have hnone : ∀ x ∈ (b :: t ++ s).head?, pair? a x = none := fun x hx =>
      Option.some.inj hx ▸ hp
    rw [List.cons_append, pieces_cons hnone, ih]
    rfl

/-- Blanks at the start are read on their own. -/
theorem pieces_blank_append {s : Text} (h : ∀ c ∈ s, Text.isBlank c = true) (t : Text) :
    pieces (s ++ t) = s.map .other ++ pieces t := by
  induction s with
  | nil => rfl
  | cons c s ih =>
    rw [List.cons_append, pieces_blank_cons (h c List.mem_cons_self),
      ih fun d hd => h d (List.mem_cons_of_mem _ hd)]
    rfl

/-- The operators do not see blanks at either end. -/
theorem operators_between {s u : Text} (hs : Gap s) (hu : Gap u) (t : Text) :
    operators (s ++ (t ++ u)) = operators t := by
  rw [operators, pieces_blank_append hs.all, pieces_append_blank hu.all]
  simp [operators, List.filterMap_append, List.filterMap_map]

/-- Texts in front that end alike lead to the same marks. -/
theorem marksFrom_congr {u v t : Text} (h : Alike u v t) :
    marksFrom u (pieces t) = marksFrom v (pieces t) := by
  fun_induction pieces t generalizing u v with
  | case1 => rfl
  | case2 a => rw [marksFrom_single, marksFrom_single, h.isBinary_eq]; rfl
  | case3 a b t p hp ih =>
    obtain ⟨m, -, -, hm⟩ := marksFrom_pair hp v
    rw [hm u _ (h.isBinary_eq _), hm v _ rfl, ih h.cons.cons]
  | case4 a b t hp ih => rw [marksFrom_single, marksFrom_single, h.isBinary_eq, ih h.cons]

theorem length_marksFrom (v t : Text) : (marksFrom v (pieces t)).length = t.length :=
  (marked_marksFrom v t).length_eq.symm

theorem alike_of_blank {u v : Text} (hu : ∀ c ∈ u, Text.isBlank c = true)
    (hv : ∀ c ∈ v, Text.isBlank c = true) (next : Text) : Alike u v next := by
  have hfront {u : Text} (hu : ∀ c ∈ u, Text.isBlank c = true) : inFront u = [] :=
    List.dropWhile_eq_nil_iff.mpr hu
  have hword {u : Text} (hu : ∀ c ∈ u, Text.isBlank c = true) : Text.leadingWord u = [] := by
    cases u with
    | nil => rfl
    | cons c u =>
      exact leadingWord_nil_of_not_word (Text.isWord_eq_false_of_isBlank (hu c (by simp))) u
  exact ⟨by rw [hfront hu, hfront hv], by rw [hfront hu, hfront hv],
    fun _ => by rw [hword hu, hword hv]⟩

/-- The marks between two runs of blanks do not depend on the blanks. -/
theorem marks_between {s u : Text} (hs : Gap s) (hu : Gap u) (t : Text) :
    marks (s ++ (t ++ u)) =
      List.replicate s.length ⟨false, false⟩ ++
        (marks t ++ List.replicate u.length ⟨false, false⟩) := by
  have hother (s : Text) (v : Text) :
      marksFrom v (s.map .other) = List.replicate s.length ⟨false, false⟩ := by
    induction s generalizing v with
    | nil => rfl
    | cons c s ih => rw [List.map_cons, marksFrom, ih]; rfl
  have hfront : ∀ c ∈ ((s.map Piece.other).flatMap Piece.text).reverse ++ [],
      Text.isBlank c = true := by
    have hs : (s.map Piece.other).flatMap Piece.text = s := by
      induction s with
      | nil => rfl
      | cons c s ih => simpa [Piece.text] using ih hs.tail
    simpa [hs] using ‹Gap s›.all
  rw [marks, pieces_blank_append hs.all, pieces_append_blank hu.all, marksFrom_append,
    marksFrom_append, hother, hother,
    marksFrom_congr (alike_of_blank hfront (fun _ h => absurd h List.not_mem_nil) t)]
  rfl

/-! ## 2. Cells that are a line -/

/-- Cells that are what is made of their characters. -/
structure IsLine (cs : List Cell) : Prop where
  code : cs.map Cell.code = (scan .code (cs.map Cell.raw)).text
  mark : cs.map Cell.mark = marks (cs.map Cell.code)
  one : '\n' ∉ cs.map Cell.raw

/-- Cells are sound when they show what the scan shows, and are marked by that. -/
theorem allSound_of_scan {cs : List Cell}
    (hcode : cs.map Cell.code = (scan .code (cs.map Cell.raw)).text)
    (hmark : cs.map Cell.mark = marks (cs.map Cell.code)) : AllSound cs := by
  have hides := forall₂_hides_scan .code (cs.map Cell.raw)
  have marked := marked_marksFrom [] (cs.map Cell.code)
  rw [← hcode, List.forall₂_map_left_iff, List.forall₂_map_right_iff, List.forall₂_same] at hides
  rw [← marks, ← hmark, List.forall₂_map_left_iff, List.forall₂_map_right_iff,
    List.forall₂_same] at marked
  exact fun c hc => ⟨hides c hc, marked c hc⟩

/-- The cells that have three texts of one length as their parts. -/
theorem exists_cells : ∀ {raw code : Text} {mark : List Mark}, raw.length = code.length →
    code.length = mark.length →
    let cs := List.zipWith (fun raw (c, mark) => Cell.mk raw c mark) raw (code.zip mark)
    cs.map Cell.raw = raw ∧ cs.map Cell.code = code ∧ cs.map Cell.mark = mark
  | [], [], [], _, _ => ⟨rfl, rfl, rfl⟩
  | r :: raw, c :: code, m :: mark, h, h' => by
    obtain ⟨h1, h2, h3⟩ := exists_cells (Nat.succ.inj h) (Nat.succ.inj h')
    simp [h1, h2, h3]

theorem cells_of_length {line code : Text} (h : line.length = code.length) :
    (cells line code).map Cell.raw = line ∧ (cells line code).map Cell.code = code ∧
      (cells line code).map Cell.mark = marks code := by
  have hcode : code.take line.length ++ List.replicate (line.length - code.length) ' ' = code := by
    rw [h, List.take_length, Nat.sub_self, List.replicate_zero, List.append_nil]
  rw [cells, hcode]
  exact exists_cells h (length_marksFrom [] code).symm

/-- The cells of a line that starts in code. -/
def lineCells (l : Text) : List Cell := cells l (scan .code l).text

@[simp] theorem raw_lineCells (l : Text) : (lineCells l).map Cell.raw = l :=
  (cells_of_length (length_scan .code l).symm).1

@[simp] theorem code_lineCells (l : Text) : (lineCells l).map Cell.code = (scan .code l).text :=
  (cells_of_length (length_scan .code l).symm).2.1

theorem mark_lineCells (l : Text) :
    (lineCells l).map Cell.mark = marks ((lineCells l).map Cell.code) := by
  rw [code_lineCells]
  exact (cells_of_length (length_scan .code l).symm).2.2

theorem allSound_lineCells (l : Text) : AllSound (lineCells l) :=
  allSound_of_scan (by rw [code_lineCells, raw_lineCells]) (mark_lineCells l)

theorem isLine_lineCells {l : Text} (hn : '\n' ∉ l) : IsLine (lineCells l) where
  code := by rw [code_lineCells, raw_lineCells]
  mark := mark_lineCells l
  one := by rwa [raw_lineCells]

/-- A masked copy that is too long is cut. -/
theorem cells_append {line code : Text} (h : line.length = code.length) (rest : Text) :
    cells line (code ++ rest) = cells line code := by
  have hlen : line.length - (code ++ rest).length = 0 := by rw [List.length_append]; omega
  rw [cells, cells, hlen, h, List.take_left, List.take_length, Nat.sub_self, List.replicate_zero]

theorem cells_ext : ∀ {cs ds : List Cell}, cs.map Cell.raw = ds.map Cell.raw →
    cs.map Cell.code = ds.map Cell.code → cs.map Cell.mark = ds.map Cell.mark → cs = ds
  | [], [], _, _, _ => rfl
  | ⟨r, x, m⟩ :: cs, ⟨r', x', m'⟩ :: ds, hraw, hcode, hmark => by
    simp only [List.map_cons, List.cons.injEq] at hraw hcode hmark
    rw [cells_ext hraw.2 hcode.2 hmark.2, hraw.1, hcode.1, hmark.1]

namespace IsLine

variable {cs : List Cell}

theorem sound (h : IsLine cs) : AllSound cs := allSound_of_scan h.code h.mark

/-- **A line is the cells of its characters.**  Codes and marks are determined by the characters, so
cells that are a line are found again when only their characters are known. -/
theorem lineCells_eq (h : IsLine cs) : lineCells (cs.map Cell.raw) = cs := by
  have hcode : (lineCells (cs.map Cell.raw)).map Cell.code = cs.map Cell.code := by
    rw [code_lineCells, h.code]
  refine cells_ext (raw_lineCells _) hcode ?_
  rw [(isLine_lineCells h.one).mark, hcode, h.mark]

theorem keepsOperators (h : IsLine cs) : KeepsOperators [] cs (Spacing.spaced [] cs) :=
  keepsOperators_spaced (fun _ h => absurd h List.not_mem_nil) h.sound h.mark (.refl [] _)

/-- **A spaced line is a line**, and it ends in the region in which it ended.  Its codes are those
of its own masked copy (`scan_spaced`) and its marks those of its own operators
(`keepsOperators_spaced`); neither has to be computed anew. -/
theorem spaced (h : IsLine cs) : IsLine (spaced [] cs) ∧
    Region.code.behind ((Spacing.spaced [] cs).map Cell.raw) =
      Region.code.behind (cs.map Cell.raw) := by
  have hs := h.sound
  obtain ⟨hscan, hbehind⟩ := scan_spaced .code hs (fun h => absurd rfl h) h.one h.code
  refine ⟨⟨hscan.symm, h.keepsOperators.marks, fun hm => h.one ?_⟩, hbehind⟩
  -- A newline would be left of the line without its spaces and tabs.
  have hd : '\n' ∈ dense ((Spacing.spaced [] cs).map Cell.raw) :=
    List.mem_filter.mpr ⟨hm, by decide⟩
  rw [(dense_spaced _ hs).1] at hd
  exact (List.mem_filter.mp hd).1

theorem settled (h : IsLine cs) : Settled [] (Spacing.spaced [] cs) :=
  settled_spaced (fun _ h => absurd h List.not_mem_nil) h.sound ⟨rfl, Or.inl (.refl [])⟩

/-- What the masked copy of a line says about blanks at its ends. -/
theorem code_between {p b q : List Cell} (h : IsLine (p ++ (b ++ q))) (hp : Gap (p.map Cell.raw))
    (hq : Gap (q.map Cell.raw)) :
    Gap (p.map Cell.code) ∧ b.map Cell.code = (scan .code (b.map Cell.raw)).text ∧
      Gap (q.map Cell.code) := by
  have hcode := h.code
  simp only [List.map_append] at hcode
  rw [(scan_code_gap_append hp _).1, (scan_append_gap hq .code _).1] at hcode
  obtain ⟨hpcode, hcode⟩ := List.append_inj hcode (by simp)
  obtain ⟨hbcode, hqcode⟩ := List.append_inj hcode (by simp [length_scan])
  exact ⟨hpcode ▸ hp, hbcode, hqcode ▸ gap_scan hq _⟩

/-- **A line that is cut at its ends and indented is a line**, and it ends in the region in which it
ended.  The blanks at its ends change no region and no operator, whether they are hidden or shown.
-/
theorem indented {p b q : List Cell} (n : Nat) (h : IsLine (p ++ (b ++ q)))
    (hp : Gap (p.map Cell.raw)) (hq : Gap (q.map Cell.raw)) :
    IsLine (List.replicate n gapCell ++ b) ∧
      Region.code.behind ((List.replicate n gapCell ++ b).map Cell.raw) =
        Region.code.behind ((p ++ (b ++ q)).map Cell.raw) := by
  obtain ⟨hpcode, hbcode, hqcode⟩ := h.code_between hp hq
  have hmark := h.mark
  have hone := h.one
  simp only [List.map_append, List.mem_append, not_or] at hmark hone ⊢
  rw [marks_between hpcode hqcode] at hmark
  obtain ⟨-, hmark⟩ := List.append_inj hmark (by simp)
  obtain ⟨hbmark, -⟩ := List.append_inj hmark (by simp [marks, length_marksFrom])
  have hgap : Gap ((List.replicate n gapCell).map Cell.raw) := by
    rw [List.map_replicate]
    exact Text.gap_replicate_space n
  have hcode : (List.replicate n gapCell).map Cell.code = (List.replicate n gapCell).map Cell.raw :=
    by rw [List.map_replicate, List.map_replicate]; rfl
  obtain ⟨hscan, hbehind⟩ := scan_code_gap_append hgap (b.map Cell.raw)
  refine ⟨⟨?_, ?_, ?_⟩, ?_⟩
  · rw [List.map_append, List.map_append, hscan, hbcode, hcode]
  · have hm := marks_between hgap Text.gap_nil (b.map Cell.code)
    rw [List.append_nil] at hm
    rw [List.map_append, List.map_append, hcode, hm, hbmark, List.map_replicate]
    simp [gapCell]
  · rw [List.map_append, List.mem_append, not_or]
    exact ⟨fun hm => (hgap _ hm).2 rfl, hone.2.1⟩
  · rw [hbehind, (scan_code_gap_append hp _).2, (scan_append_gap hq .code _).2]

end IsLine

/-! ## 3. A line spaced twice -/

theorem spaceLine_masked (l : Text) :
    spaceLine l (masked l) = (spaced [] (lineCells l)).map Cell.raw :=
  spaceFrom_eq_map_raw [] (lineCells l)

theorem IsLine.spaceLine_eq {cs : List Cell} (h : IsLine cs) :
    spaceLine (cs.map Cell.raw) (masked (cs.map Cell.raw)) =
      (Spacing.spaced [] cs).map Cell.raw := by
  rw [spaceLine_masked, h.lineCells_eq]

end Spacing

open Spacing in
/-- **Spacing a line that is spaced changes nothing**: what spacing writes are the characters of a
line that is settled, and a settled line is written as it is.

The second spacing makes its own masked copy and reads the operators in it again.  That both are
what the first one has written along with the characters is the main part of the proof
(`IsLine.spaced`). -/
theorem spaceLine_spaceLine {l : Text} (hn : '\n' ∉ l) :
    spaceLine (spaceLine l (masked l)) (masked (spaceLine l (masked l))) =
      spaceLine l (masked l) := by
  have hline := isLine_lineCells hn
  rw [spaceLine_masked l, hline.spaced.1.spaceLine_eq, spaced_of_settled hline.settled]

/-- A line that begins with a comment and ends in an open literal. -/
theorem spaceLine_spaceLine_openLiteral :
    '\n' ∉ "/* a=b */x=f(a,b) ;y=\"c=d;".toList ∧
      spaceLine "/* a=b */x=f(a,b) ;y=\"c=d;".toList
        (masked "/* a=b */x=f(a,b) ;y=\"c=d;".toList) =
          "/* a=b */x = f(a, b);y = \"c=d;".toList ∧
      spaceLine "/* a=b */x = f(a, b);y = \"c=d;".toList
        (masked "/* a=b */x = f(a, b);y = \"c=d;".toList) =
          "/* a=b */x = f(a, b);y = \"c=d;".toList := by
  have hn : '\n' ∉ "/* a=b */x=f(a,b) ;y=\"c=d;".toList := by decide
  have hone : spaceLine "/* a=b */x=f(a,b) ;y=\"c=d;".toList
      (masked "/* a=b */x=f(a,b) ;y=\"c=d;".toList) =
        "/* a=b */x = f(a, b);y = \"c=d;".toList := by
    decide +kernel
  have htwice := spaceLine_spaceLine hn
  rw [hone] at htwice
  exact ⟨hn, hone, htwice⟩

end HypnoScript
