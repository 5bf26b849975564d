/-
# Literals and comments

What is not code in a text belongs to its *lexemes*: the string literals, the line comments and the
block comments, each with its quotation marks, slashes and stars (`lexemes`).  They are the pieces
of the text that are not code, in the sense of the lexical grammar (`Decomposes.lexemes`).  Here
they are read off the characters inside of them, of which those are marked that start a lexeme
(`Mask.inside`): unlike a decomposition, this can be followed through a scan that starts anywhere.

A text can be cut in two where no two characters are read together (`Mask.Cut`): then both its
lexemes and its masked copy are those of the two parts, the second one starting where the first one
ends.  This is so

* in front of a character that joins with nothing (`Mask.cut_plain`),
* behind a character that the masked copy shows (`Mask.cut_shown`), and
* in code, unless a slash opens a comment there (`Mask.cut_of_behind_code`).
-/
import HypnoScript.Proofs.Masking.Grammar

namespace HypnoScript

/-- What a newline does not end: a literal and a block comment. -/
def Region.isOpen : Region → Bool
  | .string => true
  | .blockComment => true
  | _ => false

namespace Region

theorem isOpen_afterNewline (r : Region) : r.afterNewline.isOpen = r.isOpen := by cases r <;> rfl

theorem isOpen_eq_false_iff {r : Region} : r.isOpen = false ↔ r.afterNewline = .code := by
  cases r <;> decide

theorem ne_string_of_not_open {r : Region} (h : r.isOpen = false) : r ≠ .string := by
  rintro rfl
  exact absurd h (by decide)

end Region

namespace Mask

/-! ## 1. The characters of lexemes -/

/-- The characters of a text that are part of a lexeme, each with a mark that tells whether the
lexeme starts there.  The cases are those of `scan`. -/
def inside : Region → Text → List (Bool × Char)
  | _, [] => []
  | r, '\n' :: cs => (if r.isOpen then [(false, '\n')] else []) ++ inside r.afterNewline cs
  | .code, '"' :: cs => (true, '"') :: inside .string cs
  | .code, '/' :: '/' :: cs => (true, '/') :: (false, '/') :: inside .lineComment cs
  | .code, '/' :: '*' :: cs => (true, '/') :: (false, '*') :: inside .blockComment cs
  | .code, _ :: cs => inside .code cs
  | .string, '"' :: cs => (false, '"') :: inside .code cs
  | .string, '\\' :: c :: cs => (false, '\\') :: (false, c) :: inside .string cs
  | .string, c :: cs => (false, c) :: inside .string cs
  | .lineComment, c :: cs => (false, c) :: inside .lineComment cs
  | .blockComment, '*' :: '/' :: cs => (false, '*') :: (false, '/') :: inside .code cs
  | .blockComment, c :: cs => (false, c) :: inside .blockComment cs

section Steps

attribute [local simp] inside

variable {c : Char} {cs : Text}

@[simp] theorem inside_nil (r : Region) : inside r [] = [] := by cases r <;> rfl

@[simp] theorem inside_newline (r : Region) (cs : Text) :
    inside r ('\n' :: cs) =
      (if r.isOpen then [(false, '\n')] else []) ++ inside r.afterNewline cs := by
  cases r <;> simp [inside]

@[simp] theorem inside_openString (cs : Text) :
    inside .code ('"' :: cs) = (true, '"') :: inside .string cs := rfl

@[simp] theorem inside_openLine (cs : Text) :
    inside .code ('/' :: '/' :: cs) = (true, '/') :: (false, '/') :: inside .lineComment cs := rfl

@[simp] theorem inside_openBlock (cs : Text) :
    inside .code ('/' :: '*' :: cs) = (true, '/') :: (false, '*') :: inside .blockComment cs := rfl

theorem inside_code (hn : c ≠ '\n') (hq : c ≠ '"') (ho : ¬ OpensComment c cs) :
    inside .code (c :: cs) = inside .code cs := by
  refine inside.eq_6 c cs hn hq ?_ ?_
  · rintro cs' rfl rfl; exact ho ⟨rfl, Or.inl rfl⟩
  · rintro cs' rfl rfl; exact ho ⟨rfl, Or.inr rfl⟩

@[simp] theorem inside_closeString (cs : Text) :
    inside .string ('"' :: cs) = (false, '"') :: inside .code cs := rfl

@[simp] theorem inside_escape (c : Char) (cs : Text) :
    inside .string ('\\' :: c :: cs) = (false, '\\') :: (false, c) :: inside .string cs :=
  inside.eq_8 c cs

theorem inside_string (hn : c ≠ '\n') (hq : c ≠ '"') (he : ¬ Escapes c cs) :
    inside .string (c :: cs) = (false, c) :: inside .string cs := by
  by_cases hc : c = '\\'
  · subst hc
    match cs with
    | [] => rfl
    | d :: cs =>
      by_cases hd : d = '\n'
      · subst hd
        simp [Region.isOpen, Region.afterNewline]
      · exact absurd ⟨rfl, d, rfl, hd⟩ he
  · exact inside.eq_9 c cs hn hq fun _ _ h => absurd h hc

theorem inside_lineComment (hn : c ≠ '\n') :
    inside .lineComment (c :: cs) = (false, c) :: inside .lineComment cs :=
  inside.eq_10 c cs hn

@[simp] theorem inside_closeBlock (cs : Text) :
    inside .blockComment ('*' :: '/' :: cs) = (false, '*') :: (false, '/') :: inside .code cs := rfl

theorem inside_blockComment (hn : c ≠ '\n') (hc : ¬ ClosesComment c cs) :
    inside .blockComment (c :: cs) = (false, c) :: inside .blockComment cs := by
  refine inside.eq_12 c cs hn ?_
  rintro cs' rfl rfl
  exact hc ⟨rfl, rfl⟩

end Steps

/-- In code, the first character that is part of a lexeme starts one. -/
theorem head_inside_code (t : Text) : ∀ d ∈ (inside .code t).head?, d.1 = true := by
  have h : ∀ r t, r = .code → ∀ d ∈ (inside r t).head?, d.1 = true := by
    intro r t
    induction r, t using scan_induction with
    | nil r => simp
    | newline r cs ih =>
      rintro rfl
      simpa [Region.isOpen] using ih rfl
    | openString cs _ | openLine cs _ | openBlock cs _ => simp
    | code c cs hn hq ho ih => simpa [inside_code hn hq ho] using ih
    | closeString | escape | string | lineComment | closeBlock | blockComment =>
      exact fun h => Region.noConfusion h
  exact h .code t rfl

/-! ## 2. Lexemes -/

/-- The lexemes that some characters make up: each mark starts one. -/
def gather : List (Bool × Char) → List Text
  | [] => []
  | (_, c) :: ds =>
    if ds.head?.all (·.1) then [c] :: gather ds else (gather ds).modifyHead (c :: ·)

/-- The lexemes have the characters that they are made of. -/
theorem flatten_gather (ds : List (Bool × Char)) : (gather ds).flatten = ds.map (·.2) := by
  induction ds with
  | nil => rfl
  | cons d ds ih =>
    rw [gather]
    split
    · simp [ih]
    · rename_i hhead
      cases hg : gather ds with
      | nil =>
        have hds : ds = [] := by simpa [hg] using ih.symm
        simp [hds] at hhead
      | cons l ls => simp [← ih, hg]

/-- There is a lexeme for each mark behind the first character. -/
theorem length_gather_cons (d : Bool × Char) (ds : List (Bool × Char)) :
    (gather (d :: ds)).length = ds.countP (·.1) + 1 := by
  induction ds generalizing d with
  | nil => rfl
  | cons e ds ih =>
    rw [gather]
    cases he : e.1 with
    | true => simp [he, ih]
    | false => simp [he, ih]

end Mask

/-- The string literals and the comments of a text, from the left, each with its delimiters. -/
def lexemes (t : Text) : List Text := Mask.gather (Mask.inside .code t)

example : lexemes "x = \"a // b\"; // c\n/* d\n*/".toList =
    ["\"a // b\"", "// c", "/* d\n*/"].map String.toList := by decide

namespace Mask

theorem length_flatten_lexemes (t : Text) :
    (lexemes t).flatten.length = (inside .code t).length := by
  rw [lexemes, flatten_gather, List.length_map]

theorem length_lexemes (t : Text) : (lexemes t).length = (inside .code t).countP (·.1) := by
  rw [lexemes]
  cases h : inside .code t with
  | nil => rfl
  | cons d ds =>
    have hd : d.1 = true := head_inside_code t d (by rw [h]; rfl)
    rw [length_gather_cons, List.countP_cons_of_pos hd]

/-! ## 3. The lexemes are pieces

The scan reads a literal or a comment to its end, and so does the grammar; only the grammar says at
once where the end is.  So the characters of a lexeme are followed through its body first, and then
through its end. -/

theorem inside_literalBody {rest body : Text} (h : LiteralBody rest body) :
    inside .string (body ++ rest) = body.map (false, ·) ++ inside .string rest := by
  induction h with
  | nil => rfl
  | @pair c body hn h ih =>
    rw [List.cons_append, List.cons_append, inside_escape, ih]
    rfl
  | @single c body hq he h ih =>
    by_cases hn : c = '\n'
    · subst hn
      rw [List.cons_append, inside_newline]
      exact congrArg ((false, '\n') :: ·) ih
    · rw [List.cons_append, inside_string hn hq he, ih]
      rfl

theorem inside_lineBody {body : Text} (hb : '\n' ∉ body) (rest : Text) :
    inside .lineComment (body ++ rest) = body.map (false, ·) ++ inside .lineComment rest := by
  induction body with
  | nil => rfl
  | cons c body ih =>
    have hn : c ≠ '\n' := fun e => hb (e ▸ List.mem_cons_self)
    rw [List.cons_append, inside_lineComment hn, ih fun h => hb (List.mem_cons_of_mem _ h)]
    rfl

theorem inside_blockBody {body rest : Text} (hb : ¬ ['*', '/'] <:+: body ++ rest.take 1) :
    inside .blockComment (body ++ rest) = body.map (false, ·) ++ inside .blockComment rest := by
  induction body with
  | nil => rfl
  | cons c body ih =>
    obtain ⟨hc, hb⟩ := not_or.mp (blockBody_cons_iff.not.mp hb)
    have ih := ih hb
    by_cases hn : c = '\n'
    · subst hn
      rw [List.cons_append, inside_newline]
      exact congrArg ((false, '\n') :: ·) ih
    · rw [List.cons_append, inside_blockComment hn hc, ih]
      rfl

/-- The characters of a lexeme, of which the first is marked. -/
def marked : Text → List (Bool × Char)
  | [] => []
  | c :: cs => (true, c) :: cs.map (false, ·)

/-- **The characters of a piece are those of a lexeme**, unless it is code.  The first one is
marked, and none of the others, so that pieces side by side are told apart. -/
theorem inside_piece {p : Piece} {rest : Text} (hp : p.Fits rest) :
    inside .code (p.text ++ rest) =
      (if p.region = .code then [] else marked p.text) ++ inside .code rest := by
  cases p with
  | code c =>
    by_cases hn : c = '\n'
    · subst hn
      exact inside_newline .code rest
    · exact inside_code hn hp.1 hp.2
  | literal body closed =>
    have hend : inside .string ((if closed then ['"'] else []) ++ rest) =
        (if closed then ['"'] else []).map (false, ·) ++ inside .code rest := by
      cases closed with
      | true => rfl
      | false => rw [hp.1]; rfl
    rw [Piece.text, List.cons_append, List.append_assoc, inside_openString,
      inside_literalBody hp.literal.1, hend, ← List.append_assoc, ← List.map_append]
    rfl
  | lineComment body =>
    have hend : inside .lineComment rest = inside .code rest := by
      cases rest with
      | nil => rfl
      | cons c rest =>
        obtain rfl : c = '\n' := hp.2 c rfl
        rw [inside_newline, inside_newline]
        rfl
    rw [Piece.text, List.cons_append, List.cons_append, inside_openLine, inside_lineBody hp.1, hend]
    rfl
  | blockComment body closed =>
    have hend : inside .blockComment ((if closed then ['*', '/'] else []) ++ rest) =
        (if closed then ['*', '/'] else []).map (false, ·) ++ inside .code rest := by
      cases closed with
      | true => rfl
      | false => rw [hp.1]; rfl
    rw [Piece.text, List.cons_append, List.cons_append, List.append_assoc, inside_openBlock,
      inside_blockBody hp.blockComment.1, hend, ← List.append_assoc, ← List.map_append]
    rfl

/-- A lexeme ends where the next one starts. -/
theorem gather_marked_append (c : Char) (cs : Text) {ds : List (Bool × Char)}
    (hds : ∀ d ∈ ds.head?, d.1 = true) :
    gather (marked (c :: cs) ++ ds) = (c :: cs) :: gather ds := by
  have h (b : Bool) : gather ((b, c) :: (cs.map (false, ·) ++ ds)) = (c :: cs) :: gather ds := by
    induction cs generalizing b c with
    | nil =>
      have hall : ds.head?.all (·.1) = true := by
        cases hd : ds.head? with
        | none => rfl
        | some d => exact hds d hd
      rw [List.map_nil, List.nil_append, gather, if_pos hall]
    | cons d cs ih =>
      rw [List.map_cons, List.cons_append, gather, if_neg (by simp), ih]
      rfl
  exact h true
end Mask

/-- **The lexemes of a text are the pieces that are not code.**  So what is said of lexemes in a
scan is said of the pieces of the only decomposition. -/
theorem Decomposes.lexemes {t : Text} {ps : List Piece} (h : Decomposes t ps) :
    lexemes t = (ps.filter (·.region ≠ .code)).map Piece.text := by
  induction h with
  | nil => rfl
  | @cons p rest ps hp h ih =>
    rw [HypnoScript.lexemes, Mask.inside_piece hp]
    by_cases hcode : p.region = .code
    · rw [if_pos hcode, List.filter_cons_of_neg (by simp [hcode])]
      exact ih
    · rw [if_neg hcode, List.filter_cons_of_pos (by simp [hcode]), List.map_cons, ← ih]
      obtain ⟨c, cs, htext⟩ : ∃ c cs, p.text = c :: cs := by
        cases p <;> exact ⟨_, _, rfl⟩
      rw [htext, Mask.gather_marked_append c cs (Mask.head_inside_code rest)]
      rfl

namespace Mask

open Text (Gap blank_ne)

/-! ## 4. Cutting a text in two -/

/-- A text that can be scanned in two parts, one after the other. -/
structure Cut (r : Region) (p t : Text) : Prop where
  inside : inside r (p ++ t) = Mask.inside r p ++ Mask.inside (r.behind p) t
  behind : r.behind (p ++ t) = (r.behind p).behind t
  text : (scan r (p ++ t)).text = (scan r p).text ++ (scan (r.behind p) t).text

/-- A character that is read on its own wherever it stands. -/
def IsPlain (c : Char) : Prop := c ≠ '/' ∧ c ≠ '*' ∧ c ≠ '"' ∧ c ≠ '\\'

instance (c : Char) : Decidable (IsPlain c) :=
  inferInstanceAs (Decidable (c ≠ '/' ∧ c ≠ '*' ∧ c ≠ '"' ∧ c ≠ '\\'))

theorem Cut.nil (r : Region) (t : Text) : Cut r [] t := ⟨by simp, by simp, by simp⟩

/-- A plain character in a literal, even behind a backslash. -/
theorem inside_string_plain {c : Char} (h : IsPlain c) (cs : Text) :
    inside .string (c :: cs) = (false, c) :: inside .string cs ∧
      Region.string.behind (c :: cs) = Region.string.behind cs := by
  by_cases hn : c = '\n'
  · subst hn
    simp [Region.isOpen, Region.afterNewline]
  · have he : ¬ Escapes c cs := fun he => h.2.2.2 he.1
    exact ⟨inside_string hn h.2.2.1 he, behind_string hn h.2.2.1 he⟩

/-- The characters of lexemes among those that a step reads. -/
def stepMarks (r r' : Region) (u : Text) : List (Bool × Char) :=
  if r = .code then if r' = .code then [] else marked u else u.map (false, ·)

section Steps

variable {cs t u v : Text} {r r' : Region}

theorem Reads.inside (h : Reads cs r u v r') :
    inside r (u ++ cs) = stepMarks r r' u ++ Mask.inside r' cs := by
  cases h with
  | openString | openLine | openBlock | closeString | closeBlock => rfl
  | code hn hq ho => exact inside_code hn hq ho
  | escape hn => exact inside_escape _ cs
  | string hn hq he => exact inside_string hn hq he
  | lineComment hn => exact inside_lineComment hn
  | blockComment hn hc => exact inside_blockComment hn hc

theorem Cut.newline (h : Cut r.afterNewline cs t) : Cut r ('\n' :: cs) t :=
  ⟨by simp [h.inside], by simp [h.behind], by simp [h.text]⟩

/-- A text can be cut behind a step as it can be cut further on, if the step is the same in front of
the whole rest. -/
theorem Cut.step (hone : Reads cs r u v r') (hboth : Reads (cs ++ t) r u v r')
    (h : Cut r' cs t) : Cut r (u ++ cs) t := by
  refine ⟨?_, ?_, ?_⟩ <;> rw [List.append_assoc]
  · rw [hboth.inside, hone.inside, hone.behind, h.inside, List.append_assoc]
  · rw [hboth.behind, hone.behind, h.behind]
  · rw [hboth.text, hone.text, hone.behind, h.text, List.append_assoc]

end Steps

/-- A backslash and the plain character that it escapes can be read one by one. -/
theorem cut_backslash {c d : Char} {t : Text} (h : IsPlain c) (he : Escapes d (c :: t)) :
    Cut .string [d] (c :: t) := by
  obtain ⟨rfl, e, hc, hn⟩ := he
  obtain rfl : c = e := Option.some.inj hc
  have hplain := inside_string_plain h t
  have he : ¬ Escapes c t := fun he => h.2.2.2 he.1
  have he' : ¬ Escapes '\\' [] := by simp [Escapes]
  refine ⟨?_, ?_, ?_⟩
  · simp [Region.behind, Mask.inside, hplain.1]
  · simp [Region.behind, hplain.2]
  · simp [Region.behind, scan_escape hn, scan_string hn h.2.2.1 he,
      scan_string (c := '\\') (by decide) (by decide) he', hide]

/-- A plain character is not read together with what stands in front of it, unless that is the
backslash that escapes it. -/
theorem Reads.of_plain {c : Char} {u v : Text} {r r' : Region} (h : Reads [] r u v r')
    (hc : IsPlain c) (t : Text) :
    Reads (c :: t) r u v r' ∨ r = .string ∧ r' = .string ∧ ∃ d, u = [d] ∧ Escapes d (c :: t) := by
  cases h with
  | openString => exact Or.inl .openString
  | openLine => exact Or.inl .openLine
  | openBlock => exact Or.inl .openBlock
  | @code d hn hq ho =>
    have hopens : OpensComment d ([] ++ c :: t) ↔ OpensComment d [] :=
      opensComment_append hc.1 hc.2.1
    exact Or.inl (.code hn hq (hopens.not.mpr ho))
  | closeString => exact Or.inl .closeString
  | escape hn => exact Or.inl (.escape hn)
  | @string d hn hq he =>
    by_cases he' : Escapes d (c :: t)
    · exact Or.inr ⟨rfl, rfl, d, rfl, he'⟩
    · exact Or.inl (.string hn hq he')
  | lineComment hn => exact Or.inl (.lineComment hn)
  | closeBlock => exact Or.inl .closeBlock
  | @blockComment d hn hcl =>
    have hcloses : ClosesComment d ([] ++ c :: t) ↔ ClosesComment d [] := closesComment_append hc.1
    exact Or.inl (.blockComment hn (hcloses.not.mpr hcl))

/-- **A text can be cut in front of a plain character.**  A backslash may stand before it; but what
it escapes is inside of the literal in either case.  No other step looks at a plain character behind
it. -/
theorem cut_plain {c : Char} (h : IsPlain c) (r : Region) (p t : Text) : Cut r p (c :: t) := by
  induction r, p using reads_induction with
  | nil r => exact .nil r _
  | newline r cs ih => exact ih.newline
  | step r u v r' cs hreads ih =>
    by_cases hcs : cs = []
    · subst hcs
      rcases hreads.of_plain h t with hboth | ⟨rfl, rfl, d, rfl, he⟩
      · exact .step hreads hboth ih
      · exact cut_backslash h he
    · exact .step hreads (hreads.append hcs _) ih

/-- Behind a newline a line starts, whatever stands in front of it. -/
theorem behind_append_newline (r : Region) (p t : Text) :
    r.behind (p ++ '\n' :: t) = (r.behind p).afterNewline.behind t := by
  rw [(cut_plain (c := '\n') (by decide) r p t).behind, behind_newline]

/-- A text can be cut behind a newline. -/
theorem cut_newline (r : Region) (p t : Text) : Cut r (p ++ ['\n']) t := by
  have hone := cut_plain (c := '\n') (by decide) r p []
  have hcut := cut_plain (c := '\n') (by decide) r p t
  refine ⟨?_, ?_, ?_⟩ <;> rw [List.append_assoc, List.singleton_append]
  · rw [hcut.inside, hone.inside, hone.behind]
    simp
  · rw [behind_append_newline, behind_append_newline, behind_nil]
  · rw [hcut.text, hone.text, hone.behind]
    simp

/-- **Blanks at the end are scanned on their own.**  A text can be cut in front of them.  They may be
what a backslash escapes, but they are hidden in either case. -/
theorem scan_append_gap {s : Text} (hs : Gap s) (r : Region) (p : Text) :
    (scan r (p ++ s)).text = (scan r p).text ++ (scan (r.behind p) s).text ∧
      r.behind (p ++ s) = r.behind p := by
  rcases s with - | ⟨d, s⟩
  · simp
  · obtain ⟨h1, h2, h3, h4⟩ := blank_ne (hs d List.mem_cons_self).1
    have hcut := cut_plain (c := d) ⟨h1, h2, h3, h4⟩ r p s
    exact ⟨hcut.text, hcut.behind.trans (behind_gap hs _)⟩

/-! ## 5. Cutting behind a character that is shown -/

/-- The last one of the first `n` characters, if there is one, is no blank. -/
def Shows (n : Nat) (m : Text) : Prop := ∀ c ∈ (m.take n).getLast?, Text.isBlank c = false

theorem Shows.tail {n : Nat} {c : Char} {m : Text} (h : Shows (n + 1) (c :: m)) : Shows n m := by
  intro d hd
  refine h d ?_
  rw [List.take_succ_cons, List.getLast?_cons, Option.mem_def.mp hd]
  rfl

/-- A blank is not the last one. -/
theorem Shows.ne_nil {cs : Text} {c : Char} {m : Text} (h : Shows (cs.length + 1) (c :: m))
    (hc : Text.isBlank c = true) : cs ≠ [] := by
  rintro rfl
  have := h c rfl
  rw [hc] at this
  exact absurd this (by decide)

theorem Shows.append {n : Nat} {m v : Text} (h : Shows (v.length + n) (v ++ m)) : Shows n m := by
  induction v with
  | nil => simpa using h
  | cons c v ih =>
    rw [List.length_cons, Nat.add_right_comm] at h
    exact ih h.tail

/-- Inside of a lexeme, only the quotation mark that ends a literal is shown. -/
theorem head_scan_hidden {r : Region} {c : Char} (cs : Text) (hn : c ≠ '\n') (hr : r ≠ .code)
    (hq : r = .string → c ≠ '"') :
    ∃ b m, (scan r (c :: cs)).text = b :: m ∧ Text.isBlank b = true := by
  cases r with
  | code => exact absurd rfl hr
  | string =>
    by_cases he : Escapes c cs
    · obtain ⟨rfl, d, hd, hdn⟩ := he
      obtain ⟨cs', rfl⟩ := List.head?_eq_some_iff.mp hd
      exact ⟨_, _, by rw [scan_escape hdn]; rfl, by decide⟩
    · exact ⟨_, _, by rw [scan_string hn (hq rfl) he]; rfl, isBlank_hide c⟩
  | lineComment => exact ⟨_, _, by rw [scan_lineComment hn]; rfl, isBlank_hide c⟩
  | blockComment =>
    by_cases hc : ClosesComment c cs
    · obtain ⟨rfl, hd⟩ := hc
      obtain ⟨cs', rfl⟩ := List.head?_eq_some_iff.mp hd
      exact ⟨_, _, rfl, by decide⟩
    · exact ⟨_, _, by rw [scan_blockComment hn hc]; rfl, isBlank_hide c⟩

/-- A step whose last character is shown is not read together with what stands behind it: what
opens or closes a comment there would be hidden, and so would a backslash be. -/
theorem Reads.of_shows {t u v : Text} {r r' : Region} (h : Reads [] r u v r')
    (hshows : Shows u.length (scan r (u ++ t)).text) :
    Reads t r u v r' ∧ (r' = .code ∨ r' = .string) := by
  have hblank {b : Char} {w m : Text} (hm : (scan r (u ++ t)).text = w ++ b :: m)
      (hlength : u.length = w.length + 1) (hb : Text.isBlank b = true) :
      Reads t r u v r' ∧ (r' = .code ∨ r' = .string) := by
    rw [hm, hlength] at hshows
    have hne : ([] : Text) ≠ [] := Shows.ne_nil hshows.append hb
    exact absurd rfl hne
  cases h with
  | openString => exact ⟨.openString, Or.inr rfl⟩
  | closeString => exact ⟨.closeString, Or.inl rfl⟩
  | openLine | openBlock | closeBlock => exact hblank (w := [' ']) rfl rfl (by decide)
  | @code c hn hq _ =>
    by_cases ho : OpensComment c t
    · -- The character would be the first one of the two that open a comment.
      obtain ⟨rfl, hd | hd⟩ := ho <;> obtain ⟨t, rfl⟩ := List.head?_eq_some_iff.mp hd
      · exact hblank (w := []) rfl rfl (by decide)
      · exact hblank (w := []) rfl rfl (by decide)
    · exact ⟨.code hn hq ho, Or.inl rfl⟩
  | escape hn =>
    exact hblank (w := [' ']) (congrArg Mask.text (scan_escape hn)) rfl (isBlank_hide _)
  | string hn hq _ =>
    obtain ⟨b, m, hm, hb⟩ := head_scan_hidden (r := .string) t hn (by decide) fun _ => hq
    exact hblank (w := []) hm rfl hb
  | lineComment hn =>
    exact hblank (w := []) (congrArg Mask.text (scan_lineComment hn)) rfl (isBlank_hide _)
  | blockComment hn _ =>
    obtain ⟨b, m, hm, hb⟩ := head_scan_hidden (r := .blockComment) t hn (by decide)
      fun h => absurd h (by decide)
    exact hblank (w := []) hm rfl hb

/-- **A text can be cut behind a character that its masked copy shows**: in code, or in a literal
behind the quotation mark that starts it.  The only steps whose last character is shown read code or
a quotation mark, and these do not depend on what comes next, unless a slash opens a comment, which
would then be hidden. -/
theorem cut_shown (r : Region) (p t : Text) (h : Shows p.length (scan r (p ++ t)).text) :
    Cut r p t ∧ (p ≠ [] → r.behind p = .code ∨ r.behind p = .string) := by
  induction r, p using reads_induction with
  | nil r => exact ⟨.nil r t, fun h => absurd rfl h⟩
  | newline r cs ih =>
    rw [List.cons_append, scan_newline, text_pushLine] at h
    obtain ⟨hcut, hr⟩ := ih h.tail
    exact ⟨hcut.newline, fun _ => by simpa using hr (h.ne_nil (by decide))⟩
  | step r u v r' cs hreads ih =>
    rw [hreads.behind]
    by_cases hcs : cs = []
    · subst hcs
      obtain ⟨hboth, hr⟩ := hreads.of_shows (by simpa using h)
      exact ⟨.step hreads hboth (.nil r' t), fun _ => by simpa using hr⟩
    · have hboth := hreads.append hcs t
      rw [List.append_assoc, hboth.text, List.length_append, hreads.length_eq] at h
      obtain ⟨hcut, hr⟩ := ih h.append
      exact ⟨.step hreads hboth hcut, fun _ => hr hcs⟩

/-- A step that shows no quotation mark opens and closes no literal. -/
theorem Reads.eq_string_iff {cs u v : Text} {r r' : Region} (h : Reads cs r u v r')
    (hv : '"' ∉ v) : r' = .string ↔ r = .string := by
  cases h with
  | openString | closeString => exact absurd List.mem_cons_self hv
  | openLine | openBlock | code | escape | string | lineComment | closeBlock | blockComment =>
    decide

/-- **Where nothing is shown, no literal starts and none ends**, for the quotation marks that start
and end one are shown. -/
theorem behind_eq_string_iff {r : Region} {s : Text} (hn : '\n' ∉ s)
    (hb : ∀ c ∈ (scan r s).text, Text.isBlank c = true) : r.behind s = .string ↔ r = .string := by
  induction r, s using reads_induction with
  | nil r => simp
  | newline r cs ih => exact absurd List.mem_cons_self hn
  | step r u v r' cs hreads ih =>
    rw [hreads.text] at hb
    rw [hreads.behind]
    have hquote : '"' ∉ v := fun hv =>
      absurd (hb _ (List.mem_append_left _ hv)) (by decide)
    have ih := ih (fun h => hn (List.mem_append_right u h))
      fun c hc => hb c (List.mem_append_right v hc)
    exact ih.trans (hreads.eq_string_iff hquote)

/-! ## 6. Cutting in code -/

/-- At the place between two texts a slash and the character behind it would open a comment. -/
def JoinsComment (p t : Text) : Prop :=
  p.getLast? = some '/' ∧ (t.head? = some '/' ∨ t.head? = some '*')

theorem JoinsComment.append {cs t : Text} (h : JoinsComment cs t) (u : Text) :
    JoinsComment (u ++ cs) t := by
  refine ⟨?_, h.2⟩
  rw [List.getLast?_append, h.1]
  rfl

/-- A step into code is made in front of every text, unless a comment would be opened. -/
theorem Reads.of_code {t u v : Text} {r : Region} (h : Reads [] r u v .code)
    (hjoin : ¬ JoinsComment u t) : Reads t r u v .code := by
  cases h with
  | code hn hq _ =>
    refine .code hn hq ?_
    rintro ⟨rfl, hhead⟩
    exact hjoin ⟨rfl, hhead⟩
  | closeString => exact .closeString
  | closeBlock => exact .closeBlock

/-- **A text can be cut in code**, unless a comment would be opened there: no literal and no comment
goes on, and no backslash escapes anything. -/
theorem cut_of_behind_code {r : Region} {p t : Text} (hcode : r.behind p = .code)
    (hjoin : ¬ JoinsComment p t) : Cut r p t := by
  induction r, p using reads_induction with
  | nil r => exact .nil r t
  | newline r cs ih =>
    exact (ih (by simpa using hcode) fun h => hjoin (h.append ['\n'])).newline
  | step r u v r' cs hreads ih =>
    rw [hreads.behind] at hcode
    have hcut := ih hcode fun h => hjoin (h.append u)
    by_cases hcs : cs = []
    · subst hcs
      obtain rfl : r' = .code := by simpa using hcode
      rw [List.append_nil] at hjoin
      exact .step hreads (hreads.of_code hjoin) hcut
    · exact .step hreads (hreads.append hcs t) hcut

end Mask
end HypnoScript
