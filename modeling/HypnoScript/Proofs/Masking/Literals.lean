/-
# The literals of a text, stroke by stroke

What a text has of literals can be read off the text and its masked copy, side by side: a quotation
mark in the masked copy opens a literal or closes one, and between two of them the characters of the
text are those of a literal.  This leaves of the text a sequence of *strokes* (`Mask.strokes`), each
of them a mark or a character, and the bodies of the closed literals are every second segment of it
that a mark ends (`Decomposes.literals`).

Strokes can be put together where texts can: behind a newline (`strokesIn_append_newline`) and at
blanks (`strokesIn_append_gap`, `strokesIn_gap_append`).  So two texts can be compared line by line
although literals run over several lines.

Layout drops carriage returns in front of newlines, and `dropBefore` says what is left: of a text
when its carriage returns are dropped, and of its strokes alike (`closedSegments_dropBefore`).
-/
import HypnoScript.Proofs.Masking.Lexemes

namespace HypnoScript

/-! ## 1. Runs in front of a character -/

section Runs

variable {α : Type} [DecidableEq α] {x y : α}

/-- A list without its runs of `x` that stand directly in front of a `y`. -/
def dropBefore (x y : α) : List α → List α
  | [] => []
  | c :: cs =>
    if c = x ∧ (cs.dropWhile (· = x)).head? = some y then dropBefore x y cs
    else c :: dropBefore x y cs

theorem mem_of_head?_dropWhile {l : List α} (h : (l.dropWhile (· = x)).head? = some y) : y ∈ l :=
  (List.dropWhile_suffix _).subset (List.mem_of_head? h)

theorem dropBefore_of_not_mem {u : List α} (hy : y ∉ u) : dropBefore x y u = u := by
  induction u with
  | nil => rfl
  | cons c u ih =>
    have hu : y ∉ u := fun h => hy (List.mem_cons_of_mem _ h)
    rw [dropBefore, if_neg (fun h => hu (mem_of_head?_dropWhile h.2)), ih hu]

/-- A run that does not reach the end of `u` ends inside of it. -/
theorem head?_dropWhile_append_ne {u : List α} (hne : u ≠ []) (hy : y ∉ u)
    (hx : u.getLast? ≠ some x) (v : List α) : ((u ++ v).dropWhile (· = x)).head? ≠ some y := by
  induction u with
  | nil => exact absurd rfl hne
  | cons c u ih =>
    obtain ⟨hc, hu⟩ := not_or.mp (List.mem_cons.not.mp hy)
    by_cases hcx : c = x
    · cases u with
      | nil => exact absurd (congrArg some hcx) hx
      | cons d u =>
        rw [List.getLast?_cons_cons] at hx
        rw [List.cons_append, List.dropWhile_cons_of_pos (by simpa using hcx)]
        exact ih (List.cons_ne_nil d u) hu hx
    · rw [List.cons_append, List.dropWhile_cons_of_neg (by simpa using hcx), List.head?_cons]
      exact fun h => hc (Option.some.inj h).symm

/-- Behind a list that does not end with `x` the runs are those of what follows. -/
theorem dropBefore_append {u : List α} (hy : y ∉ u) (hx : u.getLast? ≠ some x) (v : List α) :
    dropBefore x y (u ++ v) = u ++ dropBefore x y v := by
  induction u with
  | nil => rfl
  | cons c u ih =>
    have hu : y ∉ u := fun h => hy (List.mem_cons_of_mem _ h)
    cases u with
    | nil =>
      have hc : c ≠ x := fun h => hx (congrArg some h)
      rw [List.singleton_append, List.singleton_append, dropBefore, if_neg (fun h => hc h.1)]
    | cons d u =>
      rw [List.getLast?_cons_cons] at hx
      have hhead := head?_dropWhile_append_ne (List.cons_ne_nil d u) hu hx v
      rw [List.cons_append, dropBefore, if_neg (fun h => hhead h.2), ih hu hx]
      rfl

/-- A run goes, the `y` behind it stays. -/
theorem dropBefore_run {s : List α} (hxy : x ≠ y) (hs : ∀ c ∈ s, c = x) (v : List α) :
    dropBefore x y (s ++ y :: v) = y :: dropBefore x y v := by
  induction s with
  | nil => rw [List.nil_append, dropBefore, if_neg (fun h => hxy h.1.symm)]
  | cons c s ih =>
    obtain ⟨hc, hs⟩ := List.forall_mem_cons.mp hs
    have hhead : ((s ++ y :: v).dropWhile (· = x)).head? = some y := by
      rw [List.dropWhile_append_of_pos (by simpa using hs),
        List.dropWhile_cons_of_neg (by simpa using hxy.symm), List.head?_cons]
    rw [List.cons_append, dropBefore, if_pos ⟨hc, hhead⟩, ih hs]

end Runs

/-- A text without its carriage returns directly in front of newlines. -/
def Text.withoutReturns (t : Text) : Text := dropBefore '\r' '\n' t

namespace Mask

/-! ## 2. Strokes -/

/-- What is left of a text when only its literals are looked at: their quotation marks and the
characters between them. -/
inductive Stroke where
  | mark
  | char (c : Char)
  deriving DecidableEq, Repr

/-- The strokes of a text and its masked copy, which start inside of a literal or not. -/
def strokes (inside : Bool) : List (Char × Char) → List Stroke
  | [] => []
  | (c, shown) :: ps =>
    if shown = '"' then .mark :: strokes (!inside) ps
    else if inside then .char c :: strokes inside ps
    else strokes inside ps

/-- Whether a literal is open behind a text and its masked copy. -/
def insideBehind (inside : Bool) (ps : List (Char × Char)) : Bool :=
  ps.foldl (fun inside p => if p.2 = '"' then !inside else inside) inside

/-- The strokes of a text that starts in a region. -/
def strokesIn (r : Region) (t : Text) : List Stroke :=
  strokes (r == .string) (t.zip (scan r t).text)

theorem strokes_append (ps qs : List (Char × Char)) : ∀ inside : Bool,
    strokes inside (ps ++ qs) = strokes inside ps ++ strokes (insideBehind inside ps) qs := by
  induction ps with
  | nil => exact fun _ => rfl
  | cons p ps ih =>
    intro inside
    obtain ⟨c, shown⟩ := p
    rw [List.cons_append, strokes, strokes, insideBehind, List.foldl_cons]
    split
    · rw [ih]
      rfl
    · split <;> rw [ih] <;> rfl

/-- Where the masked copy has no quotation mark, all characters are part of a literal, or none. -/
theorem strokes_of_no_mark {ps : List (Char × Char)} (h : ∀ p ∈ ps, p.2 ≠ '"') (inside : Bool) :
    strokes inside ps = (if inside then ps.map fun p => .char p.1 else []) ∧
      insideBehind inside ps = inside := by
  induction ps with
  | nil => cases inside <;> exact ⟨rfl, rfl⟩
  | cons p ps ih =>
    obtain ⟨c, shown⟩ := p
    obtain ⟨hp, hps⟩ := List.forall_mem_cons.mp h
    obtain ⟨hstrokes, hinside⟩ := ih hps
    rw [strokes, if_neg hp, insideBehind, List.foldl_cons, if_neg hp, ← insideBehind, hstrokes]
    cases inside <;> exact ⟨rfl, hinside⟩

/-- A text whose masked copy has no quotation mark. -/
theorem strokes_zip_of_no_mark {t m : Text} (hlength : t.length = m.length) (h : '"' ∉ m)
    (inside : Bool) : strokes inside (t.zip m) = (if inside then t.map .char else []) ∧
      insideBehind inside (t.zip m) = inside := by
  have hmarks : ∀ p ∈ t.zip m, p.2 ≠ '"' := by
    rintro ⟨c, d⟩ hp rfl
    exact h (List.of_mem_zip hp).2
  obtain ⟨hstrokes, hinside⟩ := strokes_of_no_mark hmarks inside
  refine ⟨?_, hinside⟩
  have hmap : (t.zip m).map (fun p => Stroke.char p.1) = t.map .char := by
    have hfst : (t.zip m).map Prod.fst = t := List.map_fst_zip (Nat.le_of_eq hlength)
    conv_rhs => rw [← hfst, List.map_map]
    rfl
  rw [hstrokes, hmap]

/-- The last stroke, if it is a character, is that of the last character, and a literal is open
behind it. -/
theorem getLast?_strokes {ps : List (Char × Char)} {inside : Bool} {c : Char}
    (h : (strokes inside ps).getLast? = some (.char c)) :
    insideBehind inside ps = true ∧ ∃ p ∈ ps.getLast?, p.1 = c := by
  induction ps using List.reverseRecOn with
  | nil => cases h
  | append_singleton ps p ih =>
    obtain ⟨d, shown⟩ := p
    have hbehind : insideBehind inside (ps ++ [(d, shown)]) =
        if shown = '"' then !insideBehind inside ps else insideBehind inside ps := by
      rw [insideBehind, List.foldl_append]
      rfl
    rw [strokes_append] at h
    rw [hbehind, List.getLast?_concat]
    by_cases hmark : shown = '"'
    · rw [strokes, if_pos hmark] at h
      simp [strokes] at h
    · rw [strokes, if_neg hmark] at h
      rw [if_neg hmark]
      cases hinside : insideBehind inside ps with
      | true =>
        rw [hinside, if_pos rfl, strokes, List.getLast?_concat] at h
        cases h
        exact ⟨rfl, _, rfl, rfl⟩
      | false =>
        rw [hinside, if_neg Bool.false_ne_true, strokes, List.append_nil] at h
        rw [(ih h).1] at hinside
        cases hinside

theorem mem_of_char_mem_strokes {ps : List (Char × Char)} {c : Char} : ∀ {inside : Bool},
    .char c ∈ strokes inside ps → c ∈ ps.map Prod.fst := by
  induction ps with
  | nil => exact fun h => absurd h List.not_mem_nil
  | cons p ps ih =>
    intro inside h
    obtain ⟨d, shown⟩ := p
    rw [List.map_cons]
    rw [strokes] at h
    split at h
    · rcases List.mem_cons.mp h with h | h
      · cases h
      · exact List.mem_cons_of_mem _ (ih h)
    · split at h
      · rcases List.mem_cons.mp h with h | h
        · cases h
          exact List.mem_cons_self
        · exact List.mem_cons_of_mem _ (ih h)
      · exact List.mem_cons_of_mem _ (ih h)

theorem hide_ne_mark (c : Char) : hide c ≠ '"' := by
  unfold hide
  split <;> decide

theorem insideBehind_cons (inside : Bool) (c shown : Char) (ps : List (Char × Char)) :
    insideBehind inside ((c, shown) :: ps) =
      insideBehind (if shown = '"' then !inside else inside) ps := rfl

/-- **A literal is open behind a text just when it ends in one.**  The quotation marks that are
shown are those that open and close literals; one that is escaped, or stands in a comment, is
hidden. -/
theorem insideBehind_scan (r : Region) (t : Text) :
    insideBehind (r == .string) (t.zip (scan r t).text) = (r.behind t == .string) := by
  induction r, t using scan_induction with
  | nil r => rw [behind_nil]; rfl
  | newline r cs ih =>
    rw [behind_newline, ← ih, scan_newline, text_pushLine, List.zip_cons_cons, insideBehind_cons]
    cases r <;> rfl
  | openString cs ih | closeString cs ih => exact ih
  | openLine cs ih | openBlock cs ih | closeBlock cs ih => exact ih
  | code c cs hn hq ho ih =>
    rw [behind_code hn hq ho, ← ih, scan_code hn hq ho, text_push, List.zip_cons_cons,
      insideBehind_cons, if_neg hq]
  | escape c cs hn ih =>
    rw [behind_escape, ← ih, scan_escape hn, text_push, text_push, List.zip_cons_cons,
      List.zip_cons_cons, insideBehind_cons, insideBehind_cons, if_neg (hide_ne_mark c)]
    rfl
  | string c cs hn hq he ih =>
    rw [behind_string hn hq he, ← ih, scan_string hn hq he, text_push, List.zip_cons_cons,
      insideBehind_cons, if_neg (hide_ne_mark c)]
  | lineComment c cs hn ih =>
    rw [behind_lineComment hn, ← ih, scan_lineComment hn, text_push, List.zip_cons_cons,
      insideBehind_cons, if_neg (hide_ne_mark c)]
  | blockComment c cs hn hc ih =>
    rw [behind_blockComment hn hc, ← ih, scan_blockComment hn hc, text_push, List.zip_cons_cons,
      insideBehind_cons, if_neg (hide_ne_mark c)]

/-! ## 3. Longer texts -/

/-- The stroke of a newline behind a text. -/
def newlineStroke (r : Region) : List Stroke := if r == .string then [.char '\n'] else []

/-- **Behind a newline strokes go on** from the region in which the text before it ends.  The
newline itself is a stroke if it is one of a literal. -/
theorem strokesIn_append_newline (r : Region) (p t : Text) :
    strokesIn r (p ++ '\n' :: t) =
      strokesIn r p ++ (newlineStroke (r.behind p) ++ strokesIn (r.behind p).afterNewline t) := by
  have hafter : ((r.behind p).afterNewline == .string) = (r.behind p == .string) := by
    cases r.behind p <;> rfl
  rw [strokesIn, scan_append_newline, List.zip_append (length_scan r p).symm, strokes_append,
    insideBehind_scan, List.zip_cons_cons, strokes, if_neg (by decide), newlineStroke, strokesIn,
    strokesIn, hafter]
  split <;> rfl

/-- Blanks at the end are strokes if a literal is open there. -/
theorem strokesIn_append_gap {s : Text} (hs : Text.Gap s) (r : Region) (p : Text) :
    strokesIn r (p ++ s) = strokesIn r p ++ if r.behind p == .string then s.map .char else [] := by
  have hgap := gap_scan hs (r.behind p)
  have hmark : '"' ∉ (scan (r.behind p) s).text :=
    fun h => absurd (hgap '"' h).1 (by decide)
  have hlength := (length_scan (r.behind p) s).symm
  rw [strokesIn, (scan_append_gap hs r p).1, List.zip_append (length_scan r p).symm,
    strokes_append, insideBehind_scan, (strokes_zip_of_no_mark hlength hmark _).1, strokesIn]

/-- Blanks in front of code are no strokes. -/
theorem strokesIn_gap_append {s : Text} (hs : Text.Gap s) (t : Text) :
    strokesIn .code (s ++ t) = strokesIn .code t := by
  have hmark : '"' ∉ s := fun h => absurd (hs '"' h).1 (by decide)
  obtain ⟨hstrokes, hinside⟩ := strokes_zip_of_no_mark (t := s) rfl hmark false
  have hcode : (Region.code == .string) = false := rfl
  rw [strokesIn, (scan_code_gap_append hs t).1, List.zip_append rfl, strokes_append, hcode,
    hstrokes, hinside, strokesIn, hcode]
  rfl

/-! ## 4. The bodies of closed literals -/

/-- The segments of some strokes that a mark ends. -/
def closedSegments : List Stroke → List Text
  | [] => []
  | .mark :: ss => [] :: closedSegments ss
  | .char c :: ss => (closedSegments ss).modifyHead (c :: ·)

/-- Every second element of a list. -/
def seconds {α : Type} : List α → List α
  | _ :: a :: as => a :: seconds as
  | _ => []

/-- The bodies of the closed literals among some strokes. -/
def closedBodies (ss : List Stroke) : List Text := seconds (closedSegments ss)

theorem seconds_map {α β : Type} (f : α → β) (as : List α) :
    seconds (as.map f) = (seconds as).map f := by
  fun_induction seconds as with
  | case1 x a as ih => rw [List.map_cons, List.map_cons, seconds, ih, List.map_cons]
  | case2 as h =>
    cases as with
    | nil => rfl
    | cons a as =>
      cases as with
      | nil => rfl
      | cons b bs => exact absurd rfl (h a b bs)

/-- Characters that no mark ends are in no closed literal. -/
theorem closedSegments_append_chars (ss : List Stroke) (u : Text) :
    closedSegments (ss ++ u.map .char) = closedSegments ss := by
  induction ss with
  | nil =>
    rw [List.nil_append]
    induction u with
    | nil => rfl
    | cons c u ih => rw [List.map_cons, closedSegments.eq_3, ih]; rfl
  | cons s ss ih =>
    cases s with
    | mark => rw [List.cons_append, closedSegments, ih, closedSegments]
    | char c => rw [List.cons_append, closedSegments, ih, closedSegments]

theorem closedSegments_chars_append (u : Text) (ss : List Stroke) :
    closedSegments (u.map .char ++ .mark :: ss) = u :: closedSegments ss := by
  induction u with
  | nil => rfl
  | cons c u ih => rw [List.map_cons, List.cons_append, closedSegments, ih, List.modifyHead_cons]

/-- A run of strokes is one of the segment that they start with. -/
theorem head?_dropWhile_strokes {x y : Char} {ss : List Stroke} {g : Text} {gs : List Text}
    (h : closedSegments ss = g :: gs) :
    (ss.dropWhile (· = .char x)).head? = some (.char y) ↔ (g.dropWhile (· = x)).head? = some y := by
  induction ss generalizing g gs with
  | nil => cases h
  | cons s ss ih =>
    cases s with
    | mark =>
      cases h
      rw [List.dropWhile_cons_of_neg (by simp), List.head?_cons]
      exact iff_of_false (by simp) (by simp)
    | char c =>
      rw [closedSegments] at h
      cases hss : closedSegments ss with
      | nil => rw [hss] at h; cases h
      | cons g' gs' =>
        rw [hss, List.modifyHead_cons] at h
        cases h
        by_cases hc : c = x
        · rw [List.dropWhile_cons_of_pos (by simpa using hc),
            List.dropWhile_cons_of_pos (by simpa using hc)]
          exact ih hss
        · rw [List.dropWhile_cons_of_neg (by simpa using hc),
            List.dropWhile_cons_of_neg (by simpa using hc), List.head?_cons, List.head?_cons,
            Option.some.injEq, Option.some.injEq, Stroke.char.injEq]

/-- **Runs that are dropped from strokes are dropped from the closed literals.**  No run goes across
a mark, so it makes no difference whether the strokes are cut at the marks before or afterwards. -/
theorem closedSegments_dropBefore (x y : Char) (ss : List Stroke) :
    closedSegments (dropBefore (.char x) (.char y) ss) =
      (closedSegments ss).map (dropBefore x y) := by
  induction ss with
  | nil => rfl
  | cons s ss ih =>
    cases s with
    | mark =>
      rw [dropBefore, if_neg (fun h => by cases h.1), closedSegments, closedSegments, ih]
      rfl
    | char c =>
      rw [dropBefore, closedSegments]
      cases hss : closedSegments ss with
      | nil =>
        rw [hss] at ih
        split
        · rw [ih]
          rfl
        · rw [closedSegments, ih]
          rfl
      | cons g gs =>
        have hrun : (Stroke.char c = .char x ∧
            (ss.dropWhile (· = .char x)).head? = some (.char y)) ↔
              c = x ∧ (g.dropWhile (· = x)).head? = some y := by
          rw [Stroke.char.injEq, head?_dropWhile_strokes hss]
        rw [hss] at ih
        rw [List.modifyHead_cons, List.map_cons, dropBefore]
        by_cases h : c = x ∧ (g.dropWhile (· = x)).head? = some y
        · rw [if_pos (hrun.mpr h), if_pos h, ih]
          rfl
        · rw [if_neg (hrun.not.mpr h), if_neg h, closedSegments, ih]
          rfl

end Mask

/-! ## 5. Strokes and pieces -/

namespace Piece

/-- The body of a literal that is closed. -/
def closedLiteral? : Piece → Option Text
  | literal body true => some body
  | _ => none

/-- The bodies of the closed literals among some pieces, in their order. -/
def closedLiterals (ps : List Piece) : List Text := ps.filterMap closedLiteral?

theorem veil_ne_mark (c : Char) : veil c ≠ '"' := by
  unfold veil
  split
  · rename_i hc
    rcases hc with rfl | rfl <;> decide
  · decide

theorem mark_not_mem_veil (t : Text) : '"' ∉ t.map veil := by
  intro h
  obtain ⟨c, -, hc⟩ := List.mem_map.mp h
  exact veil_ne_mark c hc

end Piece

namespace Mask

open Piece (veil)

theorem length_shown (p : Piece) : p.text.length = p.shown.length := by
  cases p <;> simp [Piece.text, Piece.shown]

/-- A piece that is no literal has no strokes. -/
theorem strokesIn_plain {p : Piece} {rest : Text} (hp : p.Fits rest) (hmark : '"' ∉ p.shown) :
    strokesIn .code (p.text ++ rest) = strokesIn .code rest := by
  obtain ⟨hstrokes, hinside⟩ := strokes_zip_of_no_mark (length_shown p) hmark false
  have hcode : (Region.code == .string) = false := rfl
  rw [strokesIn, scan_piece hp, behindText, List.zip_append (length_shown p), strokes_append,
    hcode, hstrokes, hinside, strokesIn, hcode]
  rfl

/-- The strokes inside of a literal. -/
theorem strokes_body (body u m : Text) :
    strokes true ((body ++ u).zip (body.map veil ++ m)) =
      body.map .char ++ strokes true (u.zip m) := by
  have hlength : body.length = (body.map veil).length := (List.length_map _).symm
  obtain ⟨hstrokes, hinside⟩ :=
    strokes_zip_of_no_mark hlength (Piece.mark_not_mem_veil body) true
  rw [List.zip_append hlength, strokes_append, hstrokes, hinside]
  rfl

theorem strokesIn_closed {body rest : Text} (hp : (Piece.literal body true).Fits rest) :
    strokesIn .code ((Piece.literal body true).text ++ rest) =
      .mark :: (body.map .char ++ .mark :: strokesIn .code rest) := by
  rw [strokesIn, scan_piece hp, behindText, Piece.text, Piece.shown, List.cons_append,
    List.cons_append, List.append_assoc, List.append_assoc, List.zip_cons_cons, strokes,
    if_pos rfl]
  exact congrArg _ (strokes_body body _ _)

theorem strokesIn_open {body : Text} (hp : (Piece.literal body false).Fits []) :
    strokesIn .code (Piece.literal body false).text = .mark :: body.map .char := by
  have hscan := scan_piece hp
  rw [List.append_nil] at hscan
  rw [strokesIn, hscan, behindText, Piece.text, Piece.shown, List.cons_append, List.append_assoc,
    List.zip_cons_cons, strokes, if_pos rfl]
  exact congrArg _ ((strokes_body body [] []).trans (List.append_nil _))

end Mask

/-- **The closed literals of a text are read off its strokes.**  Of the pieces only literals leave
strokes, each closed one its body between two marks.  A literal that is not closed is the last
piece, and leaves a segment that no mark ends. -/
theorem Decomposes.literals {t : Text} {ps : List Piece} (h : Decomposes t ps) :
    Mask.closedBodies (Mask.strokesIn .code t) = Piece.closedLiterals ps := by
  induction h with
  | nil => rfl
  | @cons p rest ps hp h ih =>
    rw [Piece.closedLiterals, List.filterMap_cons, ← Piece.closedLiterals, ← ih]
    cases p with
    | code c =>
      rw [Mask.strokesIn_plain hp fun hmem => hp.1 (List.mem_singleton.mp hmem).symm]
      rfl
    | lineComment body =>
      rw [Mask.strokesIn_plain hp (Piece.mark_not_mem_veil _)]
      rfl
    | blockComment body closed =>
      rw [Mask.strokesIn_plain hp (Piece.mark_not_mem_veil _)]
      rfl
    | literal body closed =>
      cases closed with
      | true =>
        rw [Mask.strokesIn_closed hp, Mask.closedBodies, Mask.closedSegments,
          Mask.closedSegments_chars_append]
        rfl
      | false =>
        obtain rfl := hp.1
        have hbody : Mask.closedSegments (body.map .char) = [] :=
          Mask.closedSegments_append_chars [] body
        rw [List.append_nil, Mask.strokesIn_open hp, Mask.closedBodies, Mask.closedSegments, hbody]
        rfl

end HypnoScript
