/-
# One line, laid out

What layout keeps of a line is said once, in `Laid`: the region behind it, its shape, its ink and
the tokens and operators of its code.  A line without the carriage returns at its end keeps all this
(`laid_append_gap`), so does a line that is spaced, cut at its ends and indented (`laid_indented`),
and there is nothing else that layout does (`laid_layLine`).

A line that is laid out stays as it is when it is laid out again (`layLine_layLine`).
-/
import HypnoScript.Proofs.Layout.Shape

namespace HypnoScript
namespace Layout

open Mask Spacing
open Text (Gap ink tokens)

/-! ## 1. What is kept of a line -/

/-- What layout keeps of a line that starts in a region. -/
structure Laid (r : Region) (l out : Text) : Prop where
  one : '\n' ∉ out
  behind : r.behind out = r.behind l
  shape : LineShape.Alike (.of l (scan r l).text) (.of out (scan r out).text)
  ink : ink out = ink l
  tokens : tokens (scan r out).text = tokens (scan r l).text
  operators : operators (scan r out).text = operators (scan r l).text

theorem Laid.trans {r : Region} {l m out : Text} (h : Laid r l m) (h' : Laid r m out) :
    Laid r l out where
  one := h'.one
  behind := h'.behind.trans h.behind
  shape := h.shape.trans h'.shape
  ink := h'.ink.trans h.ink
  tokens := h'.tokens.trans h.tokens
  operators := h'.operators.trans h.operators

/-- Blanks can be cut off at the end of any line. -/
theorem laid_append_gap (r : Region) {l s : Text} (hn : '\n' ∉ l) (hs : Gap s) :
    Laid r (l ++ s) l := by
  obtain ⟨hscan, hbehind⟩ := scan_append_gap hs r l
  have hg := gap_scan hs (r.behind l)
  have hshape := LineShape.of_between Text.gap_nil hs Text.gap_nil hg l (scan r l).text
  have htokens := Text.tokens_between Text.gap_nil hg (scan r l).text
  have hoperators := operators_between Text.gap_nil hg (scan r l).text
  rw [List.nil_append, ← hscan] at hshape htokens hoperators
  rw [List.nil_append] at hshape
  refine ⟨hn, hbehind.symm, ?_, ?_, htokens.symm, hoperators.symm⟩
  · rw [hshape]; exact .refl _
  · exact (Text.ink_between Text.gap_nil hs l).symm

/-! ## 2. Comments -/

/-- Blanks at the end do not make a text start with two characters that are none. -/
theorem startsWith_trim {a b : Char} (ha : Text.isBlank a = false) (hb : Text.isBlank b = false)
    {t : Text} (hn : '\n' ∉ t) (hhead : ∀ c ∈ t.head?, Text.isBlank c = false) :
    t.trim.startsWith [a, b] = t.startsWith [a, b] := by
  obtain ⟨u, ht, hu, -⟩ := Text.trimRight_spec hn
  have htrim : t.trim = t.trimRight := by rw [Text.trim, Text.trimLeft_of_head hhead]
  rw [htrim, Bool.eq_iff_iff, Text.startsWith_iff, Text.startsWith_iff]
  constructor
  · intro h
    rw [ht]
    exact h.trans (List.prefix_append _ _)
  · rintro ⟨v, hv⟩
    rw [ht] at hv
    rcases hm : t.trimRight with - | ⟨x, - | ⟨y, m⟩⟩ <;> rw [hm] at hv
    · exact absurd (hu a (by rw [← List.nil_append u, ← hv]; simp)).1 (by simp [ha])
    · simp only [List.cons_append, List.nil_append, List.cons.injEq] at hv
      exact absurd (hu b (by rw [← hv.2]; simp)).1 (by simp [hb])
    · simp only [List.cons_append, List.nil_append, List.cons.injEq] at hv
      exact ⟨m, by rw [hv.1, hv.2.1]; rfl⟩

theorem startsWith_pair {a b x : Char} {t : Text} :
    Text.startsWith (x :: t) [a, b] = true ↔ x = a ∧ t.head? = some b := by
  rw [Text.startsWith_iff, List.cons_prefix_cons, eq_comm]
  cases t <;> simp [eq_comm]

/-- A line that starts with no blank is a comment when its first characters open one. -/
theorem isComment_cons {x : Char} {t : Text} (hn : '\n' ∉ x :: t) (hx : Text.isBlank x = false)
    (code : Text) : (LineShape.of (x :: t) code).isComment = true ↔ OpensComment x t := by
  have hhead : ∀ c ∈ (x :: t).head?, Text.isBlank c = false := fun c hc =>
    Option.some.inj hc ▸ hx
  change (Text.startsWith (Text.trim (x :: t)) ['/', '/'] ||
    Text.startsWith (Text.trim (x :: t)) ['/', '*']) = true ↔ _
  rw [startsWith_trim (by decide) (by decide) hn hhead,
    startsWith_trim (by decide) (by decide) hn hhead, Bool.or_eq_true, startsWith_pair,
    startsWith_pair, ← and_or_left]
  rfl

/-- **A line is a comment when the code hides its first character that is no blank.**  The check
looks for a slash and the character behind it.  On a line that starts in code nothing else is hidden
in this place: a literal starts with its quotation mark, which is shown. -/
theorem isComment_iff {cs : List Cell}
    (hcode : cs.map Cell.code = (scan .code (cs.map Cell.raw)).text)
    (hn : '\n' ∉ cs.map Cell.raw) (code : Text) :
    (LineShape.of (cs.map Cell.raw) code).isComment =
      (cs.find? (!Text.isBlank ·.raw)).any (Text.isBlank ·.code) := by
  induction cs with
  | nil => rfl
  | cons c cs ih =>
    rw [List.map_cons, List.map_cons] at hcode
    rw [List.map_cons] at hn ⊢
    cases hb : Text.isBlank c.raw with
    | true =>
      have hgap : Gap [c.raw] := fun x hx => by
        obtain rfl := List.mem_singleton.mp hx
        exact ⟨hb, fun h => hn (h ▸ List.mem_cons_self)⟩
      obtain ⟨hscan, -⟩ := scan_code_gap_append hgap (cs.map Cell.raw)
      have hshape := LineShape.of_between hgap Text.gap_nil Text.gap_nil Text.gap_nil
        (cs.map Cell.raw) code
      rw [List.singleton_append] at hscan hshape
      rw [List.append_nil, List.nil_append, List.append_nil] at hshape
      rw [hscan, List.singleton_append, List.cons.injEq] at hcode
      rw [hshape, ih hcode.2 (List.not_mem_of_not_mem_cons hn),
        List.find?_cons_of_neg (by simp [hb])]
    | false =>
      have hx : c.raw ≠ '\n' := fun h => hn (h ▸ List.mem_cons_self)
      rw [Bool.eq_iff_iff, isComment_cons hn hb, List.find?_cons_of_pos (by simp [hb]),
        Option.any_some]
      by_cases ho : OpensComment c.raw (cs.map Cell.raw)
      · -- The two characters that open a comment are both hidden.
        have hblank : Text.isBlank c.code = true := by
          obtain ⟨hc, h | h⟩ := ho <;> obtain ⟨t, ht⟩ := List.head?_eq_some_iff.mp h
          · rw [hc, ht, scan_openLine, text_push, List.cons.injEq] at hcode
            rw [hcode.1]; decide
          · rw [hc, ht, scan_openBlock, text_push, List.cons.injEq] at hcode
            rw [hcode.1]; decide
        exact iff_of_true ho hblank
      · have hkept : c.code = c.raw := by
          by_cases hq : c.raw = '"'
          · rw [hq, scan_openString, text_push, List.cons.injEq] at hcode
            rw [hcode.1, hq]
          · rw [scan_code hx hq ho, text_push, List.cons.injEq] at hcode
            exact hcode.1
        rw [hkept, hb]
        exact iff_of_false ho Bool.false_ne_true

/-- Spacing does not change the first cell that is no blank. -/
theorem find?_spaced {cs : List Cell} : ∀ {before : List Cell}, AllSound before →
    (∀ b ∈ before, Text.isBlank b.raw = true) → AllSound cs →
    (spaced before cs).find? (!Text.isBlank ·.raw) = cs.find? (!Text.isBlank ·.raw) := by
  induction cs with
  | nil => exact fun _ _ _ => rfl
  | cons c cs ih =>
    intro before hb hblank hs
    have ih (hc : Text.isBlank c.raw = true) :=
      ih (hb.cons hs.head) (List.forall_mem_cons.mpr ⟨hc, hblank⟩) hs.tail
    cases step_spaced before hs with
    | keep _ _ eq =>
      rw [eq, List.find?_cons, List.find?_cons]
      cases hc : Text.isBlank c.raw with
      | true => exact ih hc
      | false => rfl
    | part b bs front missing _ =>
      subst front
      have h := hblank b List.mem_cons_self
      exact absurd ((missing.raw_before hb.head).symm.trans h) Bool.false_ne_true
    | erase gap _ _ _ _ _ _ _ eq =>
      have hc := isBlank_of_isGapChar gap
      rw [eq, List.find?_cons_of_neg (by simp [hc])]
      exact ih hc

/-- A spaced line has the shape of the line. -/
theorem alike_spaced {l : Text} (hn : '\n' ∉ l) :
    LineShape.Alike (.of l (scan .code l).text)
      (.of ((spaced [] (lineCells l)).map Cell.raw) ((spaced [] (lineCells l)).map Cell.code)) := by
  have hline := isLine_lineCells hn
  have hspaced := hline.spaced.1
  have hs := hline.sound
  have hn' : '\n' ∉ (spaced [] (lineCells l)).map Cell.code :=
    hspaced.code ▸ no_newline_scan hspaced.one
  refine LineShape.alike_of (no_newline_scan hn) hn' ?_ ?_ ?_ ?_
  · rw [Bool.eq_iff_iff, LineShape.isBlank_iff hn, LineShape.isBlank_iff hspaced.one,
      ink_spaced hs, raw_lineCells]
  · have h := isComment_iff hline.code hline.one (scan .code l).text
    rw [raw_lineCells] at h
    rw [h, isComment_iff hspaced.code hspaced.one,
      find?_spaced (fun _ h => absurd h List.not_mem_nil) (fun _ h => absurd h List.not_mem_nil) hs]
  · rw [(dense_spaced _ hs).2, code_lineCells]
  · rw [tokens_spaced hs, code_lineCells]

/-! ## 3. A line that is spaced, cut at its ends and indented -/

/-- The cells `b` are what is left of a spaced line when it is cut at its ends, or at its start
alone if it ends in a literal. -/
structure IsBody (l : Text) (e : Bool) (p b q : List Cell) : Prop where
  cut : spaced [] (lineCells l) = p ++ (b ++ q)
  raw : b.map Cell.raw = body l (scan .code l).text e
  left : Gap (p.map Cell.raw)
  right : Gap (q.map Cell.raw)
  head : ∀ c ∈ (b.map Cell.raw).head?, Text.isBlank c = false
  last : if e then q = [] else ∀ c ∈ (b.map Cell.raw).getLast?, Text.isBlank c = false

theorem exists_isBody {l : Text} (hn : '\n' ∉ l) (e : Bool) : ∃ p b q, IsBody l e p b q := by
  have hone : '\n' ∉ (spaced [] (lineCells l)).map Cell.raw := (isLine_lineCells hn).spaced.1.one
  have hspaced : spaceLine l (scan .code l).text = (spaced [] (lineCells l)).map Cell.raw :=
    spaceLine_masked l
  cases e with
  | true =>
    obtain ⟨p', h, hp, hhead⟩ := Text.trimLeft_spec hone
    obtain ⟨p, b, hcut, rfl, hb⟩ := List.map_eq_append_iff.mp h
    exact ⟨p, b, [], by rwa [List.append_nil], by rw [body, hspaced]; exact hb, hp, Text.gap_nil,
      hb ▸ hhead, rfl⟩
  | false =>
    obtain ⟨p', q', h, hp, hq, hhead, hlast⟩ := Text.trim_spec hone
    obtain ⟨p, r, hcut, rfl, hr⟩ := List.map_eq_append_iff.mp h
    obtain ⟨b, q, rfl, hb, rfl⟩ := List.map_eq_append_iff.mp hr
    exact ⟨p, b, q, hcut, by rw [body, hspaced]; exact hb, hp, hq, hb ▸ hhead, hb ▸ hlast⟩

namespace IsBody

variable {l : Text} {e : Bool} {p b q : List Cell}

/-- The characters of the indented body. -/
theorem map_raw (h : IsBody l e p b q) (n : Nat) :
    (List.replicate n gapCell ++ b).map Cell.raw =
      List.replicate n ' ' ++ body l (scan .code l).text e := by
  rw [List.map_append, List.map_replicate, h.raw]
  rfl

/-- **A line that is spaced, cut at its ends and indented keeps what layout keeps.**  Each of the
three is known for the cells of the line, and what is kept is read off the cells, the blanks at both
ends apart. -/
theorem laid (h : IsBody l e p b q) (hn : '\n' ∉ l) (n : Nat) :
    Laid .code l (List.replicate n ' ' ++ body l (scan .code l).text e) := by
  have hline := isLine_lineCells hn
  have hs := hline.sound
  obtain ⟨hspaced, hbehind⟩ := hline.spaced
  obtain ⟨hp, -, hq⟩ := (h.cut ▸ hspaced).code_between h.left h.right
  obtain ⟨hout, hbehind'⟩ := (h.cut ▸ hspaced).indented n h.left h.right
  have hgap : Gap (List.replicate n ' ') := Text.gap_replicate_space n
  have hcode : (scan .code (List.replicate n ' ' ++ body l (scan .code l).text e)).text =
      List.replicate n ' ' ++ (b.map Cell.code ++ []) := by
    rw [← h.map_raw, ← hout.code, List.map_append, List.map_replicate, List.append_nil]
    rfl
  have hcut : (spaced [] (lineCells l)).map Cell.code =
      p.map Cell.code ++ (b.map Cell.code ++ q.map Cell.code) := by
    rw [h.cut, List.map_append, List.map_append]
  have hcutRaw : (spaced [] (lineCells l)).map Cell.raw =
      p.map Cell.raw ++ (b.map Cell.raw ++ q.map Cell.raw) := by
    rw [h.cut, List.map_append, List.map_append]
  have hink : ink (List.replicate n ' ' ++ body l (scan .code l).text e) = ink l := by
    have h1 := Text.ink_between h.left h.right (b.map Cell.raw)
    have h2 := Text.ink_between hgap Text.gap_nil (b.map Cell.raw)
    rw [← hcutRaw, ink_spaced hs, raw_lineCells] at h1
    rw [List.append_nil] at h2
    rw [← h.raw, h2, ← h1]
  refine ⟨h.map_raw n ▸ hout.one, ?_, ?_, hink, ?_, ?_⟩
  · rw [← h.map_raw, hbehind', ← h.cut, hbehind, raw_lineCells]
  · have hshape := alike_spaced hn
    rw [hcutRaw, hcut, LineShape.of_between h.left h.right hp hq] at hshape
    rw [hcode, ← h.raw, ← List.append_nil (b.map Cell.raw),
      LineShape.of_between hgap Text.gap_nil hgap Text.gap_nil]
    exact hshape
  · rw [hcode, Text.tokens_between hgap Text.gap_nil, ← code_lineCells l, ← tokens_spaced hs, hcut,
      Text.tokens_between hp hq]
  · rw [hcode, operators_between hgap Text.gap_nil, ← code_lineCells l,
      ← hline.keepsOperators.operators, hcut, operators_between hp hq]

/-- **The body of a line that is spaced, cut at its ends and indented is the same again.**  What was
spaced is settled, and it stays settled when it is cut and indented; so a second spacing changes
nothing, and cutting takes off just the new indentation. -/
theorem body_again (h : IsBody l e p b q) (hn : '\n' ∉ l) (n : Nat) :
    body (List.replicate n ' ' ++ body l (scan .code l).text e)
      (scan .code (List.replicate n ' ' ++ body l (scan .code l).text e)).text e =
        body l (scan .code l).text e := by
  have hline := isLine_lineCells hn
  obtain ⟨hspaced, -⟩ := hline.spaced
  obtain ⟨hp, -, hq⟩ := (h.cut ▸ hspaced).code_between h.left h.right
  obtain ⟨hout, -⟩ := (h.cut ▸ hspaced).indented n h.left h.right
  have hgap : Gap (List.replicate n ' ') := Text.gap_replicate_space n
  have hsettled : Settled [] (List.replicate n gapCell ++ b) := by
    refine settled_indented n (h.cut ▸ hline.settled) (fun c hc => (hp _ ?_).1)
      (fun c hc => (hq _ ?_).1) fun c hc => h.head c.raw ?_
    · exact List.mem_map_of_mem hc
    · exact List.mem_map_of_mem hc
    · rw [List.head?_map, Option.mem_def.mp hc]; rfl
  have hspace : spaceLine (List.replicate n ' ' ++ body l (scan .code l).text e)
      (scan .code (List.replicate n ' ' ++ body l (scan .code l).text e)).text =
        List.replicate n ' ' ++ b.map Cell.raw := by
    have hwritten := hout.spaceLine_eq
    rw [spaced_of_settled hsettled, h.map_raw] at hwritten
    rwa [h.raw]
  rw [body, hspace]
  cases e with
  | true =>
    rw [if_pos rfl, Text.trimLeft_append hgap.all, Text.trimLeft_of_head h.head, h.raw]
  | false =>
    have htrim := Text.trim_between hgap Text.gap_nil (b.map Cell.raw)
    rw [List.append_nil, Text.trim_of_ends h.head h.last, h.raw] at htrim
    rw [if_neg Bool.false_ne_true, h.raw]
    exact htrim

/-- No carriage return comes at the end of a body that has ink. -/
theorem getLast?_ne (h : IsBody l e p b q) (hn : '\n' ∉ l) (hink : ink l ≠ [])
    (hl : ∀ c ∈ l.getLast?, c ≠ '\r') :
    ∀ c ∈ (body l (scan .code l).text e).getLast?, c ≠ '\r' := by
  rw [← h.raw]
  have hs := (isLine_lineCells hn).sound
  cases e with
  | false =>
    rintro c hc rfl
    exact absurd (h.last '\r' hc) (by decide)
  | true =>
    obtain rfl : q = [] := h.last
    have hb : b.map Cell.raw ≠ [] := by
      intro hb
      have h1 := Text.ink_between h.left h.right (b.map Cell.raw)
      rw [← List.map_append, ← List.map_append, ← h.cut, ink_spaced hs, raw_lineCells, hb] at h1
      exact hink h1
    have hlast := getLast?_spaced [] hs
    rw [h.cut, List.append_nil] at hlast
    intro c hc
    refine hl c ?_
    rw [← raw_lineCells l, List.getLast?_map, ← hlast, ← List.getLast?_map, List.map_append,
      List.getLast?_append, Option.mem_def.mp hc]
    rfl

end IsBody

/-! ## 4. Layout of a line -/

section

variable {dialect : Dialect} {level : Nat} {r : Region} {l : Text} {e : Bool}

/-- The line without the carriage returns at its end. -/
def chomp (l : Text) : Text := l.dropTrailing (· == '\r')

theorem chomp_spec {l : Text} (hn : '\n' ∉ l) : ∃ s, l = chomp l ++ s ∧ Gap s ∧ '\n' ∉ chomp l ∧
    ∀ c ∈ (chomp l).getLast?, c ≠ '\r' := by
  obtain ⟨s, hs, hall, hlast⟩ := Text.dropTrailing_spec (· == '\r') l
  refine ⟨s, hs, fun c hc => ?_, fun h => hn (hs ▸ List.mem_append_left _ h), fun c hc => ?_⟩
  · have := hall c hc
    rw [beq_iff_eq] at this
    rw [this]
    exact ⟨by decide, by decide⟩
  · have := hlast c hc
    rwa [beq_eq_false_iff_ne] at this

theorem chomp_of_last {l : Text} (h : ∀ c ∈ l.getLast?, c ≠ '\r') : chomp l = l :=
  Text.dropTrailing_of_last fun c hc => beq_eq_false_iff_ne.mpr (h c hc)

/-- The body of a line does not depend on the carriage returns at its end. -/
theorem body_chomp (hn : '\n' ∉ l) (e : Bool) :
    body (chomp l) (scan r l).text e = body (chomp l) (scan r (chomp l)).text e := by
  obtain ⟨s, hs, hgap, -⟩ := chomp_spec hn
  obtain ⟨hscan, -⟩ := scan_append_gap hgap r (chomp l)
  rw [← hs] at hscan
  rw [body, body, spaceLine, spaceLine, hscan, cells_append (length_scan r _).symm]

/-- What layout makes of a line, case by case. -/
theorem layLine_eq (dialect : Dialect) (level : Nat) (s : LineShape) (l code : Text) (r : Region)
    (e : Bool) :
    layLine dialect level s l code r e =
      if isVerbatim s r then chomp l
      else if s.isBlank then []
      else List.replicate (dialect.indentUnit * levelOf dialect s level) ' ' ++
        body (chomp l) code e := rfl

/-- A line that is not left as it is starts in code. -/
theorem region_of_not_verbatim {s : LineShape} (hr : r ≠ .lineComment)
    (h : isVerbatim s r = false) : r = .code := by
  cases r with
  | code => rfl
  | lineComment => exact absurd rfl hr
  | string | blockComment => simp [isVerbatim] at h

/-- **What layout makes of a line keeps what layout keeps.**  There are three kinds of lines: those
that are left alone, comments and blank lines, and those that are spaced, cut and indented.  Only
the last kind needs an argument, and `IsBody.laid` is that argument. -/
theorem laid_layLine (dialect : Dialect) (level : Nat) (hn : '\n' ∉ l) (hr : r ≠ .lineComment)
    (e : Bool) :
    Laid r l (layLine dialect level (.of l (scan r l).text) l (scan r l).text r e) := by
  obtain ⟨s, hs, hgap, hn', -⟩ := chomp_spec hn
  have hchomp : Laid r l (chomp l) := by
    have h := laid_append_gap r hn' hgap
    rwa [← hs] at h
  rw [layLine_eq]
  split
  · exact hchomp
  · split
    · rename_i hblank
      have h := laid_append_gap r List.not_mem_nil
        (Text.gap_of_ink_nil hn ((LineShape.isBlank_iff hn _).mp hblank))
      rwa [List.nil_append] at h
    · rename_i hverbatim hblank
      obtain rfl := region_of_not_verbatim hr (Bool.eq_false_iff.mpr hverbatim)
      obtain ⟨p, b, q, h⟩ := exists_isBody hn' e
      rw [body_chomp hn]
      exact hchomp.trans (h.laid hn' _)

/-- There is ink in a line that is not blank, also without the carriage returns at its end. -/
theorem ink_chomp_ne_nil (hn : '\n' ∉ l) {code : Text} (hblank : ¬ (LineShape.of l code).isBlank) :
    ink (chomp l) ≠ [] := by
  obtain ⟨s, hs, hgap, -⟩ := chomp_spec hn
  intro hnil
  have hink := Text.ink_between Text.gap_nil hgap (chomp l)
  rw [List.nil_append, ← hs, hnil] at hink
  exact hblank ((LineShape.isBlank_iff hn code).mpr hink)

/-- No carriage return is left at the end of a line. -/
theorem getLast?_layLine_ne (dialect : Dialect) (level : Nat) (hn : '\n' ∉ l)
    (hr : r ≠ .lineComment) (e : Bool) :
    ∀ c ∈ (layLine dialect level (.of l (scan r l).text) l (scan r l).text r e).getLast?,
      c ≠ '\r' := by
  obtain ⟨-, -, -, hn', hlast⟩ := chomp_spec hn
  rw [layLine_eq]
  split
  · exact hlast
  · rename_i hverbatim
    split
    · intro c hc
      cases hc
    · rename_i hblank
      obtain rfl := region_of_not_verbatim hr (Bool.eq_false_iff.mpr hverbatim)
      obtain ⟨p, b, q, h⟩ := exists_isBody hn' e
      intro c hc
      rw [body_chomp hn, List.getLast?_append] at hc
      cases hb : (body (chomp l) (scan .code (chomp l)).text e).getLast? with
      | some d =>
        rw [hb] at hc
        exact Option.some.inj hc ▸ h.getLast?_ne hn' (ink_chomp_ne_nil hn hblank) hlast d hb
      | none =>
        rw [hb, Option.none_or] at hc
        rw [List.eq_of_mem_replicate (List.mem_of_getLast? hc)]
        decide

/-- **A line that is laid out stays as it is when it is laid out again** at the same level.  The
second pass has to take the line for one of the same kind, with the same first word, so that it is
indented alike; this is where the dedent keywords have to be words. -/
theorem layLine_layLine (hd : LineShape.AreWords dialect.dedentKeywords) (level : Nat)
    (hn : '\n' ∉ l) (hr : r ≠ .lineComment) (e : Bool) {out : Text}
    (hout : out = layLine dialect level (.of l (scan r l).text) l (scan r l).text r e) :
    layLine dialect level (.of out (scan r out).text) out (scan r out).text r e = out := by
  obtain ⟨-, -, -, hn', hlast⟩ := chomp_spec hn
  have hend : chomp out = out := chomp_of_last (hout ▸ getLast?_layLine_ne dialect level hn hr e)
  have hlaid := hout ▸ laid_layLine dialect level hn hr e
  have hshape := hlaid.shape
  rw [layLine_eq, ← hshape.isVerbatim, ← hshape.blank, ← hshape.levelOf hd]
  rw [layLine_eq] at hout
  cases hverbatim : isVerbatim (.of l (scan r l).text) r with
  | true =>
    rw [if_pos hverbatim] at hout
    rw [if_pos rfl, hout, chomp_of_last hlast]
  | false =>
    rw [if_neg (by simp [hverbatim])] at hout
    rw [if_neg Bool.false_ne_true]
    cases hblank : (LineShape.of l (scan r l).text).isBlank with
    | true =>
      rw [if_pos hblank] at hout
      rw [if_pos rfl, hout]
    | false =>
      rw [if_neg (by simp [hblank])] at hout
      rw [if_neg Bool.false_ne_true]
      obtain rfl := region_of_not_verbatim hr hverbatim
      obtain ⟨p, b, q, h⟩ := exists_isBody hn' e
      rw [body_chomp hn] at hout
      rw [hend]
      conv_rhs => rw [hout]
      rw [hout, h.body_again hn']

end

end Layout
end HypnoScript
