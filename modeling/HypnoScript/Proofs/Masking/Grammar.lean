/-
# The lexical grammar

What a text consists of can be said without a scan: it is a sequence of *pieces*, each of them a
character of code, a string literal, a line comment or a block comment.  A piece ends where its kind
says that it ends, and what stands in it is not looked at in any other way.  So whether a piece may
stand at a place depends on the piece and on what follows it (`Piece.Fits`).

* `exists_decomposes`, `Decomposes.unique`: every text has exactly one decomposition into pieces.
* `Decomposes.scan`: the scan shows what the pieces show (`Piece.shown`), and the regions in which
  lines start are those of the pieces that the newlines in front of them belong to.
* `masked_grammar`: masking implements the grammar.
-/
import HypnoScript.Proofs.Masking.Lines

namespace HypnoScript

open Mask (OpensComment ClosesComment Escapes scan)

/-! ## 1. Pieces -/

/-- A piece of a text: a character of code, or the body of a literal or a comment, without the marks
at its ends.  A literal or a block comment that is not closed runs to the end of the text. -/
inductive Piece where
  | code (c : Char)
  | literal (body : Text) (closed : Bool)
  | lineComment (body : Text)
  | blockComment (body : Text) (closed : Bool)
  deriving DecidableEq, Repr

/-- The body of a literal in front of `rest`: pairs of a backslash and a character that is no
newline, and single characters.  A quotation mark is no single character, and neither is a
backslash that makes a pair with what follows it. -/
inductive LiteralBody (rest : Text) : Text → Prop
  | nil : LiteralBody rest []
  | pair {c : Char} {body : Text} (hn : c ≠ '\n') (h : LiteralBody rest body) :
    LiteralBody rest ('\\' :: c :: body)
  | single {c : Char} {body : Text} (hq : c ≠ '"') (he : ¬ Escapes c (body ++ rest))
    (h : LiteralBody rest body) : LiteralBody rest (c :: body)

namespace Piece

/-- The characters of a piece. -/
def text : Piece → Text
  | code c => [c]
  | literal body closed => '"' :: (body ++ if closed then ['"'] else [])
  | lineComment body => '/' :: '/' :: body
  | blockComment body closed => '/' :: '*' :: (body ++ if closed then ['*', '/'] else [])

/-- The region that the characters of a piece belong to. -/
def region : Piece → Region
  | code _ => .code
  | literal _ _ => .string
  | lineComment _ => .lineComment
  | blockComment _ _ => .blockComment

/-- What is seen of a character inside of a literal or a comment. -/
def veil (c : Char) : Char := if c = '\n' ∨ c = '\r' then c else ' '

/-- What is seen of a piece: code and the quotation marks of literals as they are, of everything
else only the newlines and the carriage returns. -/
def shown : Piece → Text
  | code c => [c]
  | literal body closed => '"' :: (body.map veil ++ if closed then ['"'] else [])
  | lineComment body => (lineComment body).text.map veil
  | blockComment body closed => (blockComment body closed).text.map veil

/-- Whether a piece may stand in front of `rest`.  A literal ends with the first quotation mark that
no backslash makes a pair with, a line comment in front of a newline, a block comment with the first
`*/` in its body; and all of them may end with the text. -/
def Fits : Piece → Text → Prop
  | code c, rest => c ≠ '"' ∧ ¬ OpensComment c rest
  | literal body true, rest => LiteralBody ('"' :: rest) body
  | literal body false, rest => rest = [] ∧ LiteralBody [] body
  | lineComment body, rest => '\n' ∉ body ∧ ∀ c ∈ rest.head?, c = '\n'
  | blockComment body true, _ => ¬ ['*', '/'] <:+: body ++ ['*']
  | blockComment body false, rest => rest = [] ∧ ¬ ['*', '/'] <:+: body

end Piece

/-- A text read from the left as a sequence of pieces. -/
inductive Decomposes : Text → List Piece → Prop
  | nil : Decomposes [] []
  | cons {p : Piece} {rest : Text} {ps : List Piece} (hp : p.Fits rest) (h : Decomposes rest ps) :
    Decomposes (p.text ++ rest) (p :: ps)

/-- The characters of some pieces. -/
def Piece.textOf (ps : List Piece) : Text := ps.flatMap Piece.text

/-- A place in a text lies inside of a piece of region `r`: the piece starts in front of the place,
and does not end in front of it. -/
def LiesIn (r : Region) (ps : List Piece) (place : Nat) : Prop :=
  ∃ us p vs, ps = us ++ p :: vs ∧ p.region = r ∧ (Piece.textOf us).length < place ∧
    place ≤ (Piece.textOf us).length + p.text.length

theorem Decomposes.textOf {t : Text} {ps : List Piece} (h : Decomposes t ps) :
    Piece.textOf ps = t := by
  induction h with
  | nil => rfl
  | cons _ _ ih => rw [Piece.textOf, List.flatMap_cons, ← Piece.textOf, ih]

/-! ## 2. There is no other decomposition -/

/-- A literal ends at a quotation mark, or with the text. -/
theorem LiteralBody.unique {u v b b' : Text} (h : LiteralBody u b) (h' : LiteralBody v b')
    (he : b ++ u = b' ++ v) (hu : ∀ c ∈ u.head?, c = '"') (hv : ∀ c ∈ v.head?, c = '"') :
    b = b' := by
  induction h generalizing b' with
  | nil =>
    rw [List.nil_append] at he
    subst he
    cases h' with
    | nil => rfl
    | pair hn h' => exact absurd (hu _ rfl) (by decide)
    | single hq hs h' => exact absurd (hu _ rfl) hq
  | @pair c b hn h ih =>
    cases h' with
    | nil =>
      rw [List.nil_append] at he
      subst he
      exact absurd (hv _ rfl) (by decide)
    | @pair d b' hn' h' =>
      simp only [List.cons_append, List.cons.injEq, true_and] at he
      rw [ih h' he.2, he.1]
    | @single d b' hq hs h' =>
      simp only [List.cons_append, List.cons.injEq] at he
      exact absurd ⟨he.1.symm, c, by rw [← he.2]; rfl, hn⟩ hs
  | @single c b hq hs h ih =>
    cases h' with
    | nil =>
      rw [List.nil_append] at he
      subst he
      exact absurd (hv _ rfl) hq
    | @pair d b' hn h' =>
      simp only [List.cons_append, List.cons.injEq] at he
      exact absurd ⟨he.1, d, by rw [he.2]; rfl, hn⟩ hs
    | @single d b' hq' hs' h' =>
      simp only [List.cons_append, List.cons.injEq] at he
      rw [ih h' he.2, he.1]

/-- A line comment ends at a newline, or with the text. -/
theorem lineBody_unique {u v b b' : Text} (hb : '\n' ∉ b) (hb' : '\n' ∉ b')
    (he : b ++ u = b' ++ v) (hu : ∀ c ∈ u.head?, c = '\n') (hv : ∀ c ∈ v.head?, c = '\n') :
    b = b' := by
  rw [← Text.takeWhile_line hb hu, he, Text.takeWhile_line hb' hv]

/-- A block comment does not go on behind `*/`. -/
theorem blockBody_length_le {u v b b' : Text} (he : b ++ u = b' ++ v)
    (hu : u = [] ∨ ['*', '/'] <+: u) (hb' : ¬ ['*', '/'] <:+: b' ++ v.take 1) :
    b'.length ≤ b.length := by
  rcases List.append_eq_append_iff.mp he with ⟨x, rfl, rfl⟩ | ⟨x, rfl, rfl⟩
  · -- `x` is what `b'` has more than `b`; a `*/` starts with it, unless it is empty.
    rcases hu with hu | ⟨w, hw⟩
    · simp [(List.append_eq_nil_iff.mp hu).1]
    · match x, hw with
      | [], _ => simp
      | [_], hw =>
        obtain ⟨rfl, rfl⟩ : '*' = _ ∧ '/' :: w = v := by simpa using hw
        exact absurd ⟨b, [], by simp⟩ hb'
      | _ :: _ :: x, hw =>
        obtain ⟨rfl, rfl, -⟩ : '*' = _ ∧ '/' = _ ∧ w = x ++ v := by simpa using hw
        exact absurd ⟨b, x ++ v.take 1, by simp⟩ hb'
  · simp

theorem blockBody_unique {u v b b' : Text} (hb : ¬ ['*', '/'] <:+: b ++ u.take 1)
    (hb' : ¬ ['*', '/'] <:+: b' ++ v.take 1) (he : b ++ u = b' ++ v)
    (hu : u = [] ∨ ['*', '/'] <+: u) (hv : v = [] ∨ ['*', '/'] <+: v) : b = b' :=
  (List.append_inj he (Nat.le_antisymm (blockBody_length_le he.symm hv hb)
    (blockBody_length_le he hu hb'))).1

namespace Piece

/-- What stands behind the body of a literal. -/
theorem Fits.literal {body rest : Text} {closed : Bool} (h : (literal body closed).Fits rest) :
    let u := (if closed then ['"'] else []) ++ rest
    LiteralBody u body ∧ (∀ c ∈ u.head?, c = '"') ∧ (closed = true ↔ u ≠ []) := by
  cases closed with
  | true => exact ⟨h, by simp, by simp⟩
  | false =>
    obtain ⟨rfl, h⟩ := h
    exact ⟨h, by simp, by simp⟩

/-- What stands behind the body of a block comment. -/
theorem Fits.blockComment {body rest : Text} {closed : Bool}
    (h : (blockComment body closed).Fits rest) :
    let u := (if closed then ['*', '/'] else []) ++ rest
    ¬ ['*', '/'] <:+: body ++ u.take 1 ∧ (u = [] ∨ ['*', '/'] <+: u) ∧
      (closed = true ↔ u ≠ []) := by
  cases closed with
  | true => exact ⟨h, by simp, by simp⟩
  | false =>
    obtain ⟨rfl, h⟩ := h
    exact ⟨by simpa using h, by simp, by simp⟩

/-- A character of code is none that a literal or a comment starts with. -/
theorem Fits.eq_of_code {c : Char} {q : Piece} {rest rest' : Text} (hp : (code c).Fits rest)
    (hq : q.Fits rest') (he : (code c).text ++ rest = q.text ++ rest') : code c = q := by
  simp only [Piece.text, List.singleton_append] at he
  cases q with
  | code d => rw [(List.cons.inj he).1]
  | literal body closed =>
    simp only [List.cons_append, List.cons.injEq] at he
    exact absurd he.1 hp.1
  | lineComment body =>
    simp only [List.cons_append, List.cons.injEq] at he
    exact absurd ⟨he.1, by simp [he.2]⟩ hp.2
  | blockComment body closed =>
    simp only [List.cons_append, List.cons.injEq] at he
    exact absurd ⟨he.1, by simp [he.2]⟩ hp.2

/-- **Only one piece can stand in front.**  Pieces of different kinds start differently, as code has
no quotation mark and opens no comment.  Two of one kind end at the same place, since each of them
ends at the first place where its kind can end. -/
theorem Fits.unique {p q : Piece} {rest rest' : Text} (hp : p.Fits rest) (hq : q.Fits rest')
    (he : p.text ++ rest = q.text ++ rest') : p = q := by
  cases p with
  | code c => exact hp.eq_of_code hq he
  | literal body closed =>
    cases q with
    | code d => exact (hq.eq_of_code hp he.symm).symm
    | literal body' closed' =>
      simp only [Piece.text, List.cons_append, List.append_assoc, List.cons.injEq, true_and] at he
      obtain ⟨hb, hu, hclosed⟩ := hp.literal
      obtain ⟨hb', hu', hclosed'⟩ := hq.literal
      obtain rfl := hb.unique hb' he hu hu'
      rw [List.append_cancel_left he] at hclosed
      rw [Bool.eq_iff_iff.mpr (hclosed.trans hclosed'.symm)]
    | lineComment | blockComment => simp [Piece.text] at he
  | lineComment body =>
    cases q with
    | code d => exact (hq.eq_of_code hp he.symm).symm
    | lineComment body' =>
      simp only [Piece.text, List.cons_append, List.cons.injEq, true_and] at he
      rw [lineBody_unique hp.1 hq.1 he hp.2 hq.2]
    | literal | blockComment => simp [Piece.text] at he
  | blockComment body closed =>
    cases q with
    | code d => exact (hq.eq_of_code hp he.symm).symm
    | blockComment body' closed' =>
      simp only [Piece.text, List.cons_append, List.append_assoc, List.cons.injEq, true_and] at he
      obtain ⟨hb, hu, hclosed⟩ := hp.blockComment
      obtain ⟨hb', hu', hclosed'⟩ := hq.blockComment
      obtain rfl := blockBody_unique hb hb' he hu hu'
      rw [List.append_cancel_left he] at hclosed
      rw [Bool.eq_iff_iff.mpr (hclosed.trans hclosed'.symm)]
    | literal | lineComment => simp [Piece.text] at he

end Piece

/-- **A text has no two decompositions.**  The first pieces agree, and with them what is left. -/
theorem Decomposes.unique {t : Text} {ps qs : List Piece} (h : Decomposes t ps)
    (h' : Decomposes t qs) : ps = qs := by
  induction h generalizing qs with
  | nil =>
    cases qs with
    | nil => rfl
    | cons q qs =>
      have := h'.textOf
      cases q <;> simp [Piece.textOf, Piece.text] at this
  | @cons p rest ps hp h ih =>
    generalize ht : p.text ++ rest = t at h'
    cases h' with
    | nil => cases p <;> simp [Piece.text] at ht
    | @cons q rest' qs hq h' =>
      obtain rfl := hp.unique hq ht
      obtain rfl := List.append_cancel_left ht
      rw [ih h']

/-! ## 3. There is one -/

/-- What a text is that starts inside of a piece of a region: the rest of the piece, with what ends
it, and a text that can be decomposed. -/
def Continues : Region → Text → Prop
  | .code, t => ∃ ps, Decomposes t ps
  | .string, t => ∃ body closed rest ps, t = body ++ ((if closed then ['"'] else []) ++ rest) ∧
      (Piece.literal body closed).Fits rest ∧ Decomposes rest ps
  | .lineComment, t => ∃ body rest ps, t = body ++ rest ∧ (Piece.lineComment body).Fits rest ∧
      Decomposes rest ps
  | .blockComment, t => ∃ body closed rest ps,
      t = body ++ ((if closed then ['*', '/'] else []) ++ rest) ∧
      (Piece.blockComment body closed).Fits rest ∧ Decomposes rest ps

theorem Continues.openString {cs : Text} (h : Continues .string cs) :
    Continues .code ('"' :: cs) := by
  obtain ⟨body, closed, rest, ps, rfl, hp, h⟩ := h
  exact ⟨_, by simpa [Piece.text] using h.cons hp⟩

theorem Continues.openLine {cs : Text} (h : Continues .lineComment cs) :
    Continues .code ('/' :: '/' :: cs) := by
  obtain ⟨body, rest, ps, rfl, hp, h⟩ := h
  exact ⟨_, by simpa [Piece.text] using h.cons hp⟩

theorem Continues.openBlock {cs : Text} (h : Continues .blockComment cs) :
    Continues .code ('/' :: '*' :: cs) := by
  obtain ⟨body, closed, rest, ps, rfl, hp, h⟩ := h
  exact ⟨_, by simpa [Piece.text] using h.cons hp⟩

theorem Continues.code {c : Char} {cs : Text} (hq : c ≠ '"') (ho : ¬ OpensComment c cs)
    (h : Continues .code cs) : Continues .code (c :: cs) := by
  obtain ⟨ps, h⟩ := h
  exact ⟨_, h.cons (p := .code c) ⟨hq, ho⟩⟩

/-- A character or a pair more in a literal. -/
theorem Continues.literal {cs : Text} (h : Continues .string cs) (new : Text)
    (hnew : ∀ u body, cs = body ++ u → LiteralBody u body → LiteralBody u (new ++ body)) :
    Continues .string (new ++ cs) := by
  obtain ⟨body, closed, rest, ps, ht, hp, h⟩ := h
  refine ⟨new ++ body, closed, rest, ps, by rw [ht, List.append_assoc], ?_, h⟩
  have hbody := hnew _ _ ht hp.literal.1
  cases closed with
  | true => exact hbody
  | false =>
    obtain ⟨rfl, -⟩ := hp
    exact ⟨rfl, hbody⟩

/-- A `*/` starts with the first character, or behind it. -/
theorem blockBody_cons_iff {c : Char} {body u : Text} :
    ['*', '/'] <:+: c :: body ++ u.take 1 ↔
      ClosesComment c (body ++ u) ∨ ['*', '/'] <:+: body ++ u.take 1 := by
  have hhead : (body ++ u.take 1).head? = (body ++ u).head? := by cases body <;> cases u <;> rfl
  rw [List.cons_append, List.infix_cons_iff, List.cons_prefix_cons, ClosesComment, ← hhead,
    List.head?_eq_some_iff, eq_comm (a := c)]
  refine or_congr_left (and_congr_right fun _ => ?_)
  constructor
  · rintro ⟨w, hw⟩
    exact ⟨w, hw.symm⟩
  · rintro ⟨w, hw⟩
    exact ⟨w, hw.symm⟩

theorem Continues.blockComment {c : Char} {cs : Text} (hc : ¬ ClosesComment c cs)
    (h : Continues .blockComment cs) : Continues .blockComment (c :: cs) := by
  obtain ⟨body, closed, rest, ps, rfl, hp, h⟩ := h
  refine ⟨c :: body, closed, rest, ps, rfl, ?_, h⟩
  have hbody := blockBody_cons_iff.not.mpr (not_or.mpr ⟨hc, hp.blockComment.1⟩)
  cases closed with
  | true => exact hbody
  | false =>
    obtain ⟨rfl, -⟩ := hp
    exact ⟨rfl, by simpa using hbody⟩

/-- **A text can be decomposed**, wherever it starts: inside of a literal or a comment, what is read
first is the rest of a piece.  The induction follows the steps of the scan, which so finds the
pieces that the grammar asks for. -/
theorem continues_scan (r : Region) (t : Text) : Continues r t := by
  induction r, t using Mask.scan_induction with
  | nil r =>
    cases r with
    | code => exact ⟨[], .nil⟩
    | string => exact ⟨[], false, [], [], rfl, ⟨rfl, .nil⟩, .nil⟩
    | lineComment => exact ⟨[], [], [], rfl, ⟨by simp, by simp⟩, .nil⟩
    | blockComment => exact ⟨[], false, [], [], rfl, ⟨rfl, by decide⟩, .nil⟩
  | newline r cs ih =>
    cases r with
    | code => exact ih.code (by decide) fun ho => absurd ho.1 (by decide)
    | string => exact ih.literal ['\n'] fun u body _ h => .single (by decide) (by simp [Escapes]) h
    | lineComment =>
      obtain ⟨ps, h⟩ : Continues .code ('\n' :: cs) :=
        ih.code (by decide) fun ho => absurd ho.1 (by decide)
      exact ⟨[], _, ps, rfl, ⟨by simp, by simp⟩, h⟩
    | blockComment => exact ih.blockComment fun hc => absurd hc.1 (by decide)
  | openString cs ih => exact ih.openString
  | openLine cs ih => exact ih.openLine
  | openBlock cs ih => exact ih.openBlock
  | code c cs hn hq ho ih => exact ih.code hq ho
  | closeString cs ih =>
    obtain ⟨ps, h⟩ := ih
    exact ⟨[], true, cs, ps, rfl, .nil, h⟩
  | escape c cs hn ih => exact ih.literal ['\\', c] fun u body _ h => .pair hn h
  | string c cs hn hq he ih => exact ih.literal [c] fun u body hcs h => .single hq (hcs ▸ he) h
  | lineComment c cs hn ih =>
    obtain ⟨body, rest, ps, rfl, ⟨hb, hrest⟩, h⟩ := ih
    exact ⟨c :: body, rest, ps, rfl, ⟨by simp [hb, Ne.symm hn], hrest⟩, h⟩
  | closeBlock cs ih =>
    obtain ⟨ps, h⟩ := ih
    exact ⟨[], true, cs, ps, rfl, show ¬ ['*', '/'] <:+: [] ++ ['*'] by decide, h⟩
  | blockComment c cs hn hc ih => exact ih.blockComment hc

/-- **Every text has a decomposition.** -/
theorem exists_decomposes (t : Text) : ∃ ps, Decomposes t ps := continues_scan .code t

/-! ## 4. What the scan makes of the pieces -/

namespace Piece

/-- The regions in which the lines start whose newlines are among some characters of a piece. -/
def lineStarts (r : Region) (t : Text) : List Region := (t.filter (· = '\n')).map fun _ => r

theorem lineStarts_cons {c : Char} (hn : c ≠ '\n') (r : Region) (t : Text) :
    lineStarts r (c :: t) = lineStarts r t := by
  simp [lineStarts, hn]

theorem lineStarts_append (r : Region) (t u : Text) :
    lineStarts r (t ++ u) = lineStarts r t ++ lineStarts r u := by
  simp [lineStarts]

theorem veil_eq_hide {c : Char} (hn : c ≠ '\n') : veil c = Mask.hide c := by
  simp only [veil, Mask.hide, hn, false_or]
  split
  · assumption
  · rfl

end Piece

namespace Mask

open Piece (veil lineStarts lineStarts_cons lineStarts_append veil_eq_hide)

/-- A mask with a masked text in front, in which lines start in some regions. -/
def behindText (text : Text) (regions : List Region) (m : Mask) : Mask :=
  ⟨text ++ m.text, regions ++ m.regions⟩

theorem push_behindText (c : Char) (t : Text) (rs : List Region) (m : Mask) :
    (behindText t rs m).push c = behindText (c :: t) rs m := rfl

theorem behindText_behindText (t t' : Text) (rs rs' : List Region) (m : Mask) :
    behindText t rs (behindText t' rs' m) = behindText (t ++ t') (rs ++ rs') m := by
  simp [behindText]

theorem scan_literalBody {rest body : Text} (h : LiteralBody rest body) :
    scan .string (body ++ rest) =
      behindText (body.map veil) (lineStarts .string body) (scan .string rest) := by
  induction h with
  | nil => rfl
  | @pair c body hn h ih =>
    rw [List.cons_append, List.cons_append, scan_escape hn, ih, ← veil_eq_hide hn, push_behindText,
      push_behindText, lineStarts_cons (by decide), lineStarts_cons hn]
    rfl
  | @single c body hq he h ih =>
    by_cases hn : c = '\n'
    · subst hn
      rw [List.cons_append, scan_newline]
      exact congrArg (pushLine .string) ih
    · rw [List.cons_append, scan_string hn hq he, ih, ← veil_eq_hide hn, push_behindText,
        lineStarts_cons hn]
      rfl

theorem scan_lineBody {body : Text} (hb : '\n' ∉ body) (rest : Text) :
    scan .lineComment (body ++ rest) =
      behindText (body.map veil) (lineStarts .lineComment body) (scan .lineComment rest) := by
  induction body with
  | nil => rfl
  | cons c body ih =>
    have hn : c ≠ '\n' := fun e => hb (e ▸ List.mem_cons_self)
    rw [List.cons_append, scan_lineComment hn, ih fun h => hb (List.mem_cons_of_mem _ h),
      ← veil_eq_hide hn, push_behindText, lineStarts_cons hn]
    rfl

theorem scan_blockBody {body rest : Text} (hb : ¬ ['*', '/'] <:+: body ++ rest.take 1) :
    scan .blockComment (body ++ rest) =
      behindText (body.map veil) (lineStarts .blockComment body) (scan .blockComment rest) := by
  induction body with
  | nil => rfl
  | cons c body ih =>
    obtain ⟨hc, hb⟩ := not_or.mp (blockBody_cons_iff.not.mp hb)
    have ih := ih hb
    by_cases hn : c = '\n'
    · subst hn
      rw [List.cons_append, scan_newline]
      exact congrArg (pushLine .blockComment) ih
    · rw [List.cons_append, scan_blockComment hn hc, ih, ← veil_eq_hide hn, push_behindText,
        lineStarts_cons hn]
      rfl

/-- **A piece is scanned as a whole**, and behind it the scan goes on in code.  Inside of the piece
nothing can end it early, and that is what it means for the piece to fit. -/
theorem scan_piece {p : Piece} {rest : Text} (hp : p.Fits rest) :
    scan .code (p.text ++ rest) =
      behindText p.shown (lineStarts p.region p.text) (scan .code rest) := by
  cases p with
  | code c =>
    by_cases hn : c = '\n'
    · subst hn
      exact scan_newline .code rest
    · rw [Piece.text, lineStarts_cons hn]
      exact scan_code hn hp.1 hp.2
  | literal body closed =>
    have hend : scan .string ((if closed then ['"'] else []) ++ rest) =
        behindText (if closed then ['"'] else []) [] (scan .code rest) := by
      cases closed with
      | true => rfl
      | false => rw [hp.1]; rfl
    have hnone : lineStarts .string (if closed then ['"'] else []) = [] := by cases closed <;> rfl
    rw [Piece.text, List.cons_append, List.append_assoc, scan_openString,
      scan_literalBody hp.literal.1, hend, behindText_behindText, push_behindText,
      lineStarts_cons (by decide), lineStarts_append, Piece.region, hnone]
    rfl
  | lineComment body =>
    have hend : scan .lineComment rest = scan .code rest := by
      cases rest with
      | nil => rfl
      | cons c rest =>
        obtain rfl : c = '\n' := hp.2 c rfl
        rw [scan_newline, scan_newline]
        rfl
    rw [Piece.text, List.cons_append, List.cons_append, scan_openLine, scan_lineBody hp.1, hend,
      push_behindText, push_behindText, lineStarts_cons (by decide), lineStarts_cons (by decide)]
    rfl
  | blockComment body closed =>
    have hend : scan .blockComment ((if closed then ['*', '/'] else []) ++ rest) =
        behindText ((if closed then ['*', '/'] else []).map veil) [] (scan .code rest) := by
      cases closed with
      | true => rfl
      | false => rw [hp.1]; rfl
    have hnone : lineStarts .blockComment (if closed then ['*', '/'] else []) = [] := by
      cases closed <;> rfl
    rw [Piece.text, List.cons_append, List.cons_append, List.append_assoc, scan_openBlock,
      scan_blockBody hp.blockComment.1, hend, behindText_behindText, push_behindText,
      push_behindText, lineStarts_cons (by decide), lineStarts_cons (by decide), lineStarts_append,
      Piece.region, hnone, ← List.map_append]
    rfl

end Mask

/-- **The scan shows what the pieces show**, and its lines start in the regions of the pieces that
the newlines belong to.  This is one piece at a time, each one from code to code. -/
theorem Decomposes.scan {t : Text} {ps : List Piece} (h : Decomposes t ps) :
    scan .code t =
      ⟨ps.flatMap Piece.shown, ps.flatMap fun p => Piece.lineStarts p.region p.text⟩ := by
  induction h with
  | nil => rfl
  | @cons p rest ps hp h ih => rw [Mask.scan_piece hp, ih]; rfl

/-! ## 5. Where lines start -/

namespace Piece

/-- The characters of some pieces, each with the region that it belongs to. -/
def marks (ps : List Piece) : List (Region × Char) :=
  ps.flatMap fun p => p.text.map fun c => (p.region, c)

theorem map_snd_marks (ps : List Piece) : (marks ps).map (·.2) = textOf ps := by
  simp [marks, textOf, List.map_flatMap, Function.comp_def]

theorem flatMap_lineStarts (ps : List Piece) :
    (ps.flatMap fun p => lineStarts p.region p.text) =
      ((marks ps).filter (·.2 = '\n')).map (·.1) := by
  induction ps with
  | nil => rfl
  | cons p ps ih =>
    rw [marks, List.flatMap_cons, List.flatMap_cons, ← marks, List.filter_append, List.map_append,
      ih, List.filter_map, List.map_map]
    rfl

end Piece

/-- A place lies inside of the first piece, or behind it and inside of another one. -/
theorem liesIn_cons {r : Region} {p : Piece} {ps : List Piece} {n : Nat} :
    LiesIn r (p :: ps) n ↔ p.region = r ∧ 0 < n ∧ n ≤ p.text.length ∨
      p.text.length < n ∧ LiesIn r ps (n - p.text.length) := by
  have hlength : ∀ us,
      (Piece.textOf (p :: us)).length = p.text.length + (Piece.textOf us).length := by
    intro us
    rw [Piece.textOf, List.flatMap_cons, List.length_append, ← Piece.textOf]
  constructor
  · rintro ⟨us, q, vs, hps, hq, hlt, hle⟩
    cases us with
    | nil =>
      obtain ⟨rfl, -⟩ := List.cons.inj hps
      simp only [Piece.textOf, List.flatMap_nil, List.length_nil] at hlt hle
      exact Or.inl ⟨hq, hlt, by omega⟩
    | cons u us =>
      obtain ⟨rfl, rfl⟩ := List.cons.inj hps
      rw [hlength] at hlt hle
      exact Or.inr ⟨by omega, us, q, vs, rfl, hq, by omega, by omega⟩
  · rintro (⟨hq, hlt, hle⟩ | ⟨hlt, us, q, vs, rfl, hq, hlt', hle⟩)
    · exact ⟨[], p, ps, rfl, hq, hlt, by simpa [Piece.textOf] using hle⟩
    · refine ⟨p :: us, q, vs, rfl, hq, ?_, ?_⟩ <;> rw [hlength] <;> omega

/-- A place behind a character lies inside of the piece that the character belongs to. -/
theorem liesIn_iff_of_marks {r q : Region} {c : Char} {ps : List Piece} {i : Nat}
    (h : (Piece.marks ps)[i]? = some (q, c)) : LiesIn r ps (i + 1) ↔ q = r := by
  induction ps generalizing i with
  | nil => simp [Piece.marks] at h
  | cons p ps ih =>
    rw [Piece.marks, List.flatMap_cons, ← Piece.marks] at h
    rw [liesIn_cons]
    by_cases hi : i < p.text.length
    · rw [List.getElem?_append_left (by simpa using hi), List.getElem?_map,
        List.getElem?_eq_getElem hi] at h
      obtain ⟨rfl, -⟩ := Prod.mk.inj (Option.some.inj h)
      have hnot : ¬ p.text.length < i + 1 := by omega
      simp [hnot, Nat.succ_le_of_lt hi]
    · rw [List.getElem?_append_right (by simpa using hi), List.length_map] at h
      have hlt : p.text.length < i + 1 := by omega
      have hnot : ¬ i + 1 ≤ p.text.length := by omega
      have hsub : i + 1 - p.text.length = i - p.text.length + 1 := by omega
      simp [hlt, hnot, hsub, ih h]

namespace Document

theorem lineStartIn_lines_newline (t : Text) (n : Nat) :
    lineStartIn (Text.lines ('\n' :: t)) (n + 1) = lineStartIn (Text.lines t) n + 1 := by
  simp [lineStartIn, Text.lines, Text.split, Nat.add_comm]

theorem lineStartIn_lines_cons {c : Char} (hc : c ≠ '\n') (t : Text) (n : Nat) :
    lineStartIn (Text.lines (c :: t)) (n + 1) = lineStartIn (Text.lines t) (n + 1) + 1 := by
  obtain ⟨l, ls, h⟩ := List.exists_cons_of_ne_nil (Text.lines_ne_nil t)
  rw [Text.lines] at h
  simp [lineStartIn, Text.lines, Text.split, hc, h]
  omega

/-- **A line starts behind a newline**: line `n + 1` behind the newline number `n`. -/
theorem lineStartIn_of_newline {α : Type} {ms : List (α × Char)} {n : Nat} {a : α}
    (h : ((ms.filter (·.2 = '\n')).map (·.1))[n]? = some a) :
    ∃ i, ms[i]? = some (a, '\n') ∧ lineStartIn (Text.lines (ms.map (·.2))) (n + 1) = i + 1 := by
  induction ms generalizing n with
  | nil => simp at h
  | cons m ms ih =>
    obtain ⟨b, c⟩ := m
    by_cases hc : c = '\n'
    · subst hc
      rw [List.map_cons, lineStartIn_lines_newline]
      cases n with
      | zero => exact ⟨0, by simpa using h, rfl⟩
      | succ n =>
        obtain ⟨i, hi, hstart⟩ := ih (n := n) (by simpa using h)
        exact ⟨i + 1, hi, by rw [hstart]⟩
    · obtain ⟨i, hi, hstart⟩ := ih (n := n) (by simpa [hc] using h)
      rw [List.map_cons, lineStartIn_lines_cons hc]
      exact ⟨i + 1, hi, by rw [hstart]⟩

end Document

/-- A newline is part of no line comment. -/
theorem Decomposes.newline {t : Text} {ps : List Piece} (h : Decomposes t ps) {q : Region}
    (hq : (q, '\n') ∈ Piece.marks ps) : q ≠ .lineComment := by
  induction h with
  | nil => simp [Piece.marks] at hq
  | @cons p rest ps hp h ih =>
    rw [Piece.marks, List.flatMap_cons, ← Piece.marks, List.mem_append] at hq
    rcases hq with hq | hq
    · cases p with
      | lineComment body => simp [Piece.text, hp.1] at hq
      | code | literal | blockComment =>
        obtain ⟨c, -, hc⟩ := List.mem_map.mp hq
        rw [← (Prod.mk.inj hc).1]
        exact Region.noConfusion
    · exact ih hq

/-- **The region in which a line starts** is that of the literal or block comment inside of which it
starts, and code if it starts inside of none.  It starts inside of the piece that the newline in
front of it belongs to.  A line comment ends in front of its newline, so no line starts inside of
one. -/
theorem Decomposes.regions {t : Text} {ps : List Piece} (h : Decomposes t ps) {k : Nat} {r : Region}
    (hr : (Mask.of t).regions[k]? = some r) :
    r ≠ .lineComment ∧ ∀ q, q = .string ∨ q = .blockComment →
      (r = q ↔ LiesIn q ps ((Document.ofText t).lineStart k)) := by
  have hregions : (Mask.of t).regions =
      .code :: ((Piece.marks ps).filter (·.2 = '\n')).map (·.1) := by
    rw [Mask.of, h.scan, ← Piece.flatMap_lineStarts]
  rw [hregions] at hr
  cases k with
  | zero =>
    obtain rfl : Region.code = r := Option.some.inj hr
    refine ⟨by decide, fun q hq => ⟨?_, ?_⟩⟩
    · rintro rfl
      exact absurd hq (by decide)
    · rintro ⟨us, p, vs, -, -, hlt, -⟩
      exact absurd hlt (Nat.not_lt_zero _)
  | succ k =>
    obtain ⟨i, hi, hstart⟩ : ∃ i, (Piece.marks ps)[i]? = some (r, '\n') ∧
        Document.lineStartIn (Text.lines ((Piece.marks ps).map (·.2))) (k + 1) = i + 1 :=
      Document.lineStartIn_of_newline hr
    rw [Piece.map_snd_marks, h.textOf] at hstart
    refine ⟨h.newline (List.mem_of_getElem? hi), fun q _ => ?_⟩
    rw [show (Document.ofText t).lineStart (k + 1) = i + 1 from hstart, liesIn_iff_of_marks hi]

/-- **Masking implements the lexical grammar.**  A text has exactly one decomposition into pieces.
The masked copy is what the pieces show.  And a line starts in the region of the literal or block
comment inside of which it starts, and in code if it starts inside of none.

The grammar says of each kind of piece where it ends and nothing else, while the scan keeps a state
from character to character.  What ties them together is that a piece is scanned from code to code
(`Mask.scan_piece`), whatever stands inside of it. -/
theorem masked_grammar (t : Text) :
    ∃ ps, (∀ qs, Decomposes t qs ↔ qs = ps) ∧ masked t = ps.flatMap Piece.shown ∧
      (Mask.of t).regions.length = t.lines.length ∧
      ∀ k r, (Mask.of t).regions[k]? = some r →
        let start := (Document.ofText t).lineStart k
        (r = .string ↔ LiesIn .string ps start) ∧
        (r = .blockComment ↔ LiesIn .blockComment ps start) ∧
        (r = .code ↔ ¬ LiesIn .string ps start ∧ ¬ LiesIn .blockComment ps start) := by
  obtain ⟨ps, h⟩ := exists_decomposes t
  refine ⟨ps, fun qs => ⟨fun h' => h'.unique h, ?_⟩, ?_, ?_, fun k r hr => ?_⟩
  · rintro rfl
    exact h
  · rw [masked, Mask.of, h.scan]
  · rw [show (Mask.of t).regions = _ from Document.regions_ofText t, Mask.length_lineRegions]
  · obtain ⟨hline, hopen⟩ := h.regions hr
    have hstring := hopen .string (Or.inl rfl)
    have hblock := hopen .blockComment (Or.inr rfl)
    refine ⟨hstring, hblock, ?_⟩
    rw [← hstring, ← hblock]
    cases r <;> simp_all

end HypnoScript
