/-
# Masking goes line by line

`Mask.scan` reads a text with two characters in sight: a slash may open a comment, a backslash may
escape, a star may close.  Here each of its steps gets an equation of its own (§2) and the induction
that follows them (§3), whose cases are named after what is read.  Where it does not matter which
step is made, there is an induction with one case for all of them (§4, `Mask.Reads`).

* `Mask.forall₂_hides_scan`: the masked copy keeps a character or hides it behind a space; newlines
  and carriage returns stay.
* `Mask.scan_append_newline`: behind a newline the scan goes on from the region in which the text
  before it ends (`Region.behind`), whatever stands there.
* `Mask.scan_joinLines`: so the lines of a masked copy are the masked copies of the lines.
-/
import Mathlib.Data.List.Forall2
import HypnoScript.Document
import HypnoScript.Proofs.Text.Blanks
import HypnoScript.Proofs.Text.Lines

namespace HypnoScript

/-! ## 1. The region behind a text -/

/-- The region behind a text that starts in a region. -/
def Region.behind : Region → Text → Region
  | r, [] => r
  | r, '\n' :: cs => behind r.afterNewline cs
  | .code, '"' :: cs => behind .string cs
  | .code, '/' :: '/' :: cs => behind .lineComment cs
  | .code, '/' :: '*' :: cs => behind .blockComment cs
  | .code, _ :: cs => behind .code cs
  | .string, '"' :: cs => behind .code cs
  | .string, '\\' :: _ :: cs => behind .string cs
  | .string, _ :: cs => behind .string cs
  | .lineComment, _ :: cs => behind .lineComment cs
  | .blockComment, '*' :: '/' :: cs => behind .code cs
  | .blockComment, _ :: cs => behind .blockComment cs

namespace Mask

open Text (Gap blank_ne)

/-! ## 2. One step at a time -/

/-- A slash that opens a comment. -/
def OpensComment (c : Char) (cs : Text) : Prop :=
  c = '/' ∧ (cs.head? = some '/' ∨ cs.head? = some '*')

/-- A backslash that escapes the character behind it. -/
def Escapes (c : Char) (cs : Text) : Prop := c = '\\' ∧ ∃ d ∈ cs.head?, d ≠ '\n'

/-- A star that closes a comment. -/
def ClosesComment (c : Char) (cs : Text) : Prop := c = '*' ∧ cs.head? = some '/'

section Steps

attribute [local simp] scan Region.behind

variable {c : Char} {cs : Text}

@[simp] theorem scan_nil (r : Region) : scan r [] = ⟨[], []⟩ := by cases r <;> simp [scan]

@[simp] theorem scan_newline (r : Region) (cs : Text) :
    scan r ('\n' :: cs) = (scan r.afterNewline cs).pushLine r.afterNewline := by
  cases r <;> simp [scan]

@[simp] theorem scan_openString (cs : Text) :
    scan .code ('"' :: cs) = (scan .string cs).push '"' := rfl

@[simp] theorem scan_openLine (cs : Text) :
    scan .code ('/' :: '/' :: cs) = ((scan .lineComment cs).push ' ').push ' ' := rfl

@[simp] theorem scan_openBlock (cs : Text) :
    scan .code ('/' :: '*' :: cs) = ((scan .blockComment cs).push ' ').push ' ' := rfl

theorem scan_code (hn : c ≠ '\n') (hq : c ≠ '"') (ho : ¬ OpensComment c cs) :
    scan .code (c :: cs) = (scan .code cs).push c := by
  refine scan.eq_6 c cs hn hq ?_ ?_
  · rintro cs' rfl rfl; exact ho ⟨rfl, Or.inl rfl⟩
  · rintro cs' rfl rfl; exact ho ⟨rfl, Or.inr rfl⟩

@[simp] theorem scan_closeString (cs : Text) :
    scan .string ('"' :: cs) = (scan .code cs).push '"' := rfl

theorem scan_escape (hn : c ≠ '\n') :
    scan .string ('\\' :: c :: cs) = ((scan .string cs).push (hide c)).push ' ' :=
  scan.eq_9 c cs hn

theorem scan_string (hn : c ≠ '\n') (hq : c ≠ '"') (he : ¬ Escapes c cs) :
    scan .string (c :: cs) = (scan .string cs).push (hide c) := by
  by_cases hc : c = '\\'
  · subst hc
    match cs with
    | [] => simp [scan]
    | d :: cs =>
      by_cases hd : d = '\n'
      · subst hd
        simp [scan, hide, Region.afterNewline]
      · exact absurd ⟨rfl, d, rfl, hd⟩ he
  · exact scan.eq_10 c cs hn hq (fun _ h => absurd h hc) (fun _ _ h => absurd h hc)

theorem scan_lineComment (hn : c ≠ '\n') :
    scan .lineComment (c :: cs) = (scan .lineComment cs).push (hide c) :=
  scan.eq_11 c cs hn

@[simp] theorem scan_closeBlock (cs : Text) :
    scan .blockComment ('*' :: '/' :: cs) = ((scan .code cs).push ' ').push ' ' := rfl

theorem scan_blockComment (hn : c ≠ '\n') (hc : ¬ ClosesComment c cs) :
    scan .blockComment (c :: cs) = (scan .blockComment cs).push (hide c) := by
  refine scan.eq_13 c cs hn ?_
  rintro cs' rfl rfl
  exact hc ⟨rfl, rfl⟩

@[simp] theorem behind_nil (r : Region) : r.behind [] = r := by cases r <;> rfl

@[simp] theorem behind_newline (r : Region) (cs : Text) :
    r.behind ('\n' :: cs) = r.afterNewline.behind cs := by
  cases r <;> simp [Region.behind]

@[simp] theorem behind_openString (cs : Text) :
    Region.code.behind ('"' :: cs) = Region.string.behind cs := rfl

@[simp] theorem behind_openLine (cs : Text) :
    Region.code.behind ('/' :: '/' :: cs) = Region.lineComment.behind cs := rfl

@[simp] theorem behind_openBlock (cs : Text) :
    Region.code.behind ('/' :: '*' :: cs) = Region.blockComment.behind cs := rfl

theorem behind_code (hn : c ≠ '\n') (hq : c ≠ '"') (ho : ¬ OpensComment c cs) :
    Region.code.behind (c :: cs) = Region.code.behind cs := by
  refine Region.behind.eq_6 c cs hn hq ?_ ?_
  · rintro cs' rfl rfl; exact ho ⟨rfl, Or.inl rfl⟩
  · rintro cs' rfl rfl; exact ho ⟨rfl, Or.inr rfl⟩

@[simp] theorem behind_closeString (cs : Text) :
    Region.string.behind ('"' :: cs) = Region.code.behind cs := rfl

@[simp] theorem behind_escape (c : Char) (cs : Text) :
    Region.string.behind ('\\' :: c :: cs) = Region.string.behind cs :=
  Region.behind.eq_8 c cs

theorem behind_string (hn : c ≠ '\n') (hq : c ≠ '"') (he : ¬ Escapes c cs) :
    Region.string.behind (c :: cs) = Region.string.behind cs := by
  by_cases hc : c = '\\'
  · subst hc
    match cs with
    | [] => simp [Region.behind]
    | d :: cs =>
      by_cases hd : d = '\n'
      · subst hd
        simp [Region.afterNewline]
      · exact absurd ⟨rfl, d, rfl, hd⟩ he
  · exact Region.behind.eq_9 c cs hn hq fun _ _ h => absurd h hc

theorem behind_lineComment (hn : c ≠ '\n') :
    Region.lineComment.behind (c :: cs) = Region.lineComment.behind cs :=
  Region.behind.eq_10 c cs hn

@[simp] theorem behind_closeBlock (cs : Text) :
    Region.blockComment.behind ('*' :: '/' :: cs) = Region.code.behind cs := rfl

theorem behind_blockComment (hn : c ≠ '\n') (hc : ¬ ClosesComment c cs) :
    Region.blockComment.behind (c :: cs) = Region.blockComment.behind cs := by
  refine Region.behind.eq_12 c cs hn ?_
  rintro cs' rfl rfl
  exact hc ⟨rfl, rfl⟩

end Steps

/-! ## 3. The induction along the steps -/

/-- To show something of every region and every text scanned from there, it is enough to follow the
steps of the scan. -/
@[elab_as_elim]
theorem scan_induction {motive : Region → Text → Prop}
    (nil : ∀ r, motive r [])
    (newline : ∀ r cs, motive r.afterNewline cs → motive r ('\n' :: cs))
    (openString : ∀ cs, motive .string cs → motive .code ('"' :: cs))
    (openLine : ∀ cs, motive .lineComment cs → motive .code ('/' :: '/' :: cs))
    (openBlock : ∀ cs, motive .blockComment cs → motive .code ('/' :: '*' :: cs))
    (code : ∀ c cs, c ≠ '\n' → c ≠ '"' → ¬ OpensComment c cs → motive .code cs →
      motive .code (c :: cs))
    (closeString : ∀ cs, motive .code cs → motive .string ('"' :: cs))
    (escape : ∀ c cs, c ≠ '\n' → motive .string cs → motive .string ('\\' :: c :: cs))
    (string : ∀ c cs, c ≠ '\n' → c ≠ '"' → ¬ Escapes c cs → motive .string cs →
      motive .string (c :: cs))
    (lineComment : ∀ c cs, c ≠ '\n' → motive .lineComment cs → motive .lineComment (c :: cs))
    (closeBlock : ∀ cs, motive .code cs → motive .blockComment ('*' :: '/' :: cs))
    (blockComment : ∀ c cs, c ≠ '\n' → ¬ ClosesComment c cs → motive .blockComment cs →
      motive .blockComment (c :: cs))
    (r : Region) (t : Text) : motive r t := by
  fun_induction scan r t with
  | case1 r => exact nil r
  | case2 r cs ih => exact newline r cs ih
  | case3 cs ih => exact openString cs ih
  | case4 cs ih => exact openLine cs ih
  | case5 cs ih => exact openBlock cs ih
  | case6 c cs hn hq h1 h2 ih =>
    refine code c cs hn hq ?_ ih
    rintro ⟨rfl, h | h⟩ <;> obtain ⟨cs', rfl⟩ := List.head?_eq_some_iff.mp h
    · exact h1 cs' rfl rfl
    · exact h2 cs' rfl rfl
  | case7 cs ih => exact closeString cs ih
  | case8 cs ih =>
    -- A backslash in front of a newline escapes nothing.
    refine string '\\' ('\n' :: cs) (by decide) (by decide) ?_ (newline .string cs ih)
    rintro ⟨-, d, hd, hne⟩
    exact hne (Option.some.inj hd).symm
  | case9 c cs hn ih => exact escape c cs hn ih
  | case10 c cs hn hq h1 h2 ih =>
    refine string c cs hn hq ?_ ih
    rintro ⟨rfl, d, hd, -⟩
    obtain ⟨cs', rfl⟩ := List.head?_eq_some_iff.mp hd
    exact h2 d cs' rfl rfl
  | case11 c cs hn ih => exact lineComment c cs hn ih
  | case12 cs ih => exact closeBlock cs ih
  | case13 c cs hn h1 ih =>
    refine blockComment c cs hn ?_ ih
    rintro ⟨rfl, h⟩
    obtain ⟨cs', rfl⟩ := List.head?_eq_some_iff.mp h
    exact h1 cs' rfl rfl

/-! ## 4. Steps of any kind

Often it does not matter which step is made, as long as the characters behind it leave it as it is:
a step has only the next character in sight. -/

/-- One step of the scan that stays on its line: in a region and in front of `rest` some characters
are read, something is shown for them, and the scan goes on in a region. -/
inductive Reads (rest : Text) : Region → Text → Text → Region → Prop
  | openString : Reads rest .code ['"'] ['"'] .string
  | openLine : Reads rest .code ['/', '/'] [' ', ' '] .lineComment
  | openBlock : Reads rest .code ['/', '*'] [' ', ' '] .blockComment
  | code {c : Char} (hn : c ≠ '\n') (hq : c ≠ '"') (ho : ¬ OpensComment c rest) :
    Reads rest .code [c] [c] .code
  | closeString : Reads rest .string ['"'] ['"'] .code
  | escape {c : Char} (hn : c ≠ '\n') : Reads rest .string ['\\', c] [' ', hide c] .string
  | string {c : Char} (hn : c ≠ '\n') (hq : c ≠ '"') (he : ¬ Escapes c rest) :
    Reads rest .string [c] [hide c] .string
  | lineComment {c : Char} (hn : c ≠ '\n') : Reads rest .lineComment [c] [hide c] .lineComment
  | closeBlock : Reads rest .blockComment ['*', '/'] [' ', ' '] .code
  | blockComment {c : Char} (hn : c ≠ '\n') (hc : ¬ ClosesComment c rest) :
    Reads rest .blockComment [c] [hide c] .blockComment

/-- The induction along the steps of the scan, whatever they are. -/
@[elab_as_elim]
theorem reads_induction {motive : Region → Text → Prop}
    (nil : ∀ r, motive r [])
    (newline : ∀ r cs, motive r.afterNewline cs → motive r ('\n' :: cs))
    (step : ∀ r u v r' cs, Reads cs r u v r' → motive r' cs → motive r (u ++ cs))
    (r : Region) (t : Text) : motive r t := by
  induction r, t using scan_induction with
  | nil r => exact nil r
  | newline r cs ih => exact newline r cs ih
  | openString cs ih => exact step _ _ _ _ cs .openString ih
  | openLine cs ih => exact step _ _ _ _ cs .openLine ih
  | openBlock cs ih => exact step _ _ _ _ cs .openBlock ih
  | code c cs hn hq ho ih => exact step _ _ _ _ cs (.code hn hq ho) ih
  | closeString cs ih => exact step _ _ _ _ cs .closeString ih
  | escape c cs hn ih => exact step _ _ _ _ cs (.escape hn) ih
  | string c cs hn hq he ih => exact step _ _ _ _ cs (.string hn hq he) ih
  | lineComment c cs hn ih => exact step _ _ _ _ cs (.lineComment hn) ih
  | closeBlock cs ih => exact step _ _ _ _ cs .closeBlock ih
  | blockComment c cs hn hc ih => exact step _ _ _ _ cs (.blockComment hn hc) ih

theorem isBlank_hide (c : Char) : Text.isBlank (hide c) = true := by
  unfold hide
  split <;> decide

namespace Reads

variable {rest rest' u v : Text} {r r' : Region}

theorem scan_eq (h : Reads rest r u v r') :
    scan r (u ++ rest) = ⟨v ++ (scan r' rest).text, (scan r' rest).regions⟩ := by
  cases h with
  | openString | openLine | openBlock | closeString | closeBlock => rfl
  | code hn hq ho => exact scan_code hn hq ho
  | escape hn => exact scan_escape hn
  | string hn hq he => exact scan_string hn hq he
  | lineComment hn => exact scan_lineComment hn
  | blockComment hn hc => exact scan_blockComment hn hc

theorem text (h : Reads rest r u v r') :
    (scan r (u ++ rest)).text = v ++ (scan r' rest).text := by rw [h.scan_eq]

theorem behind (h : Reads rest r u v r') : r.behind (u ++ rest) = r'.behind rest := by
  cases h with
  | openString | openLine | openBlock | closeString | closeBlock => rfl
  | code hn hq ho => exact behind_code hn hq ho
  | escape hn => exact behind_escape _ rest
  | string hn hq he => exact behind_string hn hq he
  | lineComment hn => exact behind_lineComment hn
  | blockComment hn hc => exact behind_blockComment hn hc

theorem length_eq (h : Reads rest r u v r') : u.length = v.length := by
  cases h <;> rfl

/-- A step is made in front of another text if it is not read together with that. -/
theorem mono (h : Reads rest r u v r') (ho : ∀ c, OpensComment c rest' → OpensComment c rest)
    (he : ∀ c, Escapes c rest' → Escapes c rest)
    (hc : ∀ c, ClosesComment c rest' → ClosesComment c rest) : Reads rest' r u v r' := by
  cases h with
  | openString => exact .openString
  | openLine => exact .openLine
  | openBlock => exact .openBlock
  | code hn hq hopens => exact .code hn hq fun h => hopens (ho _ h)
  | closeString => exact .closeString
  | escape hn => exact .escape hn
  | string hn hq hescapes => exact .string hn hq fun h => hescapes (he _ h)
  | lineComment hn => exact .lineComment hn
  | closeBlock => exact .closeBlock
  | blockComment hn hcloses => exact .blockComment hn fun h => hcloses (hc _ h)

/-- A step that something stands behind stays as it is when the text goes on. -/
theorem append (h : Reads rest r u v r') (hne : rest ≠ []) (t : Text) :
    Reads (rest ++ t) r u v r' := by
  have hhead : (rest ++ t).head? = rest.head? := List.head?_append_of_ne_nil rest hne
  refine h.mono (fun c => ?_) (fun c => ?_) (fun c => ?_)
  · rw [OpensComment, OpensComment, hhead]
    exact id
  · rw [Escapes, Escapes, hhead]
    exact id
  · rw [ClosesComment, ClosesComment, hhead]
    exact id

theorem ne_nil (h : Reads rest r u v r') : u ≠ [] := by
  cases h <;> exact List.cons_ne_nil _ _

/-- A step reads one character of code, or it is on a literal or a comment.  Then it shows nothing
but blanks and quotation marks, and it reads no blank if it opens or closes what it is on. -/
theorem code_or_veiled (h : Reads rest r u v r') :
    (r = .code ∧ r' = .code ∧ ∃ c, u = [c] ∧ v = [c]) ∨
      (∀ c ∈ v, Text.isBlank c = true ∨ c = '"') ∧
        (r = .code ∨ r' = .code → ∀ c ∈ u, Text.isBlank c = false) := by
  have hspace : Text.isBlank ' ' = true := by decide
  cases h with
  | code => exact Or.inl ⟨rfl, rfl, _, rfl, rfl⟩
  | openString | closeString =>
    refine Or.inr ⟨fun c hc => Or.inr (List.mem_singleton.mp hc), fun _ c hc => ?_⟩
    obtain rfl := List.mem_singleton.mp hc
    decide
  | openLine | openBlock | closeBlock =>
    refine Or.inr ⟨fun c hc => Or.inl ?_, fun _ c hc => ?_⟩
    · obtain rfl : c = ' ' := by simpa using hc
      exact hspace
    · rcases List.mem_cons.mp hc with rfl | hc
      · decide
      · obtain rfl := List.mem_singleton.mp hc
        decide
  | escape =>
    refine Or.inr ⟨fun c hc => Or.inl ?_, fun h => absurd h (by decide)⟩
    rcases List.mem_cons.mp hc with rfl | hc
    · exact hspace
    · exact List.mem_singleton.mp hc ▸ isBlank_hide _
  | string | lineComment | blockComment =>
    refine Or.inr ⟨fun c hc => Or.inl ?_, fun h => absurd h (by decide)⟩
    exact List.mem_singleton.mp hc ▸ isBlank_hide _

end Reads

/-! ## 5. What the masked copy keeps -/

/-- Whether `m` may stand in a masked copy for `c`. -/
def Hides (c m : Char) : Prop := m = c ∨ m = ' ' ∧ c ≠ '\n' ∧ c ≠ '\r'

theorem hides_hide {c : Char} (hn : c ≠ '\n') : Hides c (hide c) := by
  unfold hide Hides
  split
  · exact Or.inl ‹c = '\r'›.symm
  · exact Or.inr ⟨rfl, hn, ‹_›⟩

/-- **The masked copy has a character for each character of the text**, the same one or a space, and
newlines and carriage returns stay.  Every step of the scan shows as many characters as it reads. -/
theorem forall₂_hides_scan (r : Region) (t : Text) : List.Forall₂ Hides t (scan r t).text := by
  induction r, t using scan_induction with
  | nil r => simp
  | newline r cs ih => simpa using ⟨Or.inl rfl, ih⟩
  | openString cs ih | closeString cs ih => simpa using ⟨Or.inl rfl, ih⟩
  | openLine cs ih | openBlock cs ih | closeBlock cs ih =>
    exact .cons (Or.inr ⟨rfl, by decide, by decide⟩) (.cons (Or.inr ⟨rfl, by decide, by decide⟩) ih)
  | code c cs hn hq ho ih => simpa [scan_code hn hq ho] using ⟨Or.inl rfl, ih⟩
  | escape c cs hn ih =>
    simpa [scan_escape hn] using ⟨Or.inr ⟨rfl, by decide, by decide⟩, hides_hide hn, ih⟩
  | string c cs hn hq he ih => simpa [scan_string hn hq he] using ⟨hides_hide hn, ih⟩
  | lineComment c cs hn ih => simpa [scan_lineComment hn] using ⟨hides_hide hn, ih⟩
  | blockComment c cs hn hc ih => simpa [scan_blockComment hn hc] using ⟨hides_hide hn, ih⟩

theorem length_scan (r : Region) (t : Text) : (scan r t).text.length = t.length :=
  (forall₂_hides_scan r t).length_eq.symm

/-- Each character of a masked copy hides one of the text. -/
theorem exists_of_mem_scan {r : Region} {t : Text} {m : Char} (h : m ∈ (scan r t).text) :
    ∃ c ∈ t, Hides c m := by
  obtain ⟨i, hi, rfl⟩ := List.getElem_of_mem h
  have ht : i < t.length := by rwa [length_scan] at hi
  have hhides := (List.forall₂_iff_get.mp (forall₂_hides_scan r t)).2 i ht hi
  exact ⟨t[i], List.getElem_mem ht, hhides⟩

/-- A word character is shown only where it stands. -/
theorem eq_of_hides {x w : Text} (hw : ∀ c ∈ w, Text.isWord c = true) (h : List.Forall₂ Hides x w) :
    x = w := by
  induction h with
  | nil => rfl
  | @cons c m x w hc _ ih =>
    obtain ⟨hm, hw⟩ := List.forall_mem_cons.mp hw
    rcases hc with rfl | ⟨rfl, -⟩
    · rw [ih hw]
    · exact absurd hm (by decide)

/-- A word that is shown stands at the same place in the text. -/
theorem exists_of_hides {t a w b : Text} (hw : ∀ c ∈ w, Text.isWord c = true)
    (h : List.Forall₂ Hides t (a ++ (w ++ b))) :
    ∃ p q, t = p ++ (w ++ q) ∧ p.length = a.length := by
  have hword : (t.drop a.length).take w.length = w :=
    eq_of_hides hw (List.forall₂_take_append _ _ _ (List.forall₂_drop_append _ _ _ h))
  have hsplit := List.take_append_drop w.length (t.drop a.length)
  rw [hword] at hsplit
  refine ⟨t.take a.length, (t.drop a.length).drop w.length, ?_, ?_⟩
  · rw [hsplit, List.take_append_drop]
  · rw [List.length_take_of_le]
    rw [h.length_eq, List.length_append]
    exact Nat.le_add_right _ _

theorem no_newline_scan {r : Region} {l : Text} (h : '\n' ∉ l) : '\n' ∉ (scan r l).text := by
  intro hm
  obtain ⟨c, hc, rfl | ⟨hm, -⟩⟩ := exists_of_mem_scan hm
  · exact h hc
  · exact absurd hm (by decide)

/-! ## 6. Going on behind a newline, and through blanks -/

theorem opensComment_append {c d : Char} {cs t : Text} (h1 : d ≠ '/') (h2 : d ≠ '*') :
    OpensComment c (cs ++ d :: t) ↔ OpensComment c cs := by
  cases cs <;> simp [OpensComment, h1, h2]

theorem closesComment_append {c d : Char} {cs t : Text} (h : d ≠ '/') :
    ClosesComment c (cs ++ d :: t) ↔ ClosesComment c cs := by
  cases cs <;> simp [ClosesComment, h]

theorem escapes_append_newline {c : Char} {cs t : Text} :
    Escapes c (cs ++ '\n' :: t) ↔ Escapes c cs := by
  cases cs <;> simp [Escapes]

/-- **Behind a newline the scan goes on** from the region in which the text before it ends.  No step
reads across a newline: it opens and closes no comment together with the character before it, and is
not escaped. -/
theorem scan_append_newline (r : Region) (p t : Text) :
    scan r (p ++ '\n' :: t) =
      ⟨(scan r p).text ++ '\n' :: (scan (r.behind p).afterNewline t).text,
        (scan r p).regions ++
          (r.behind p).afterNewline :: (scan (r.behind p).afterNewline t).regions⟩ := by
  induction r, p using reads_induction with
  | nil r => simp [pushLine]
  | newline r cs ih => simp [ih, pushLine]
  | step r u v r' cs h ih =>
    have h' : Reads (cs ++ '\n' :: t) r u v r' :=
      h.mono (fun _ => (opensComment_append (by decide) (by decide)).mp)
        (fun _ => escapes_append_newline.mp) fun _ => (closesComment_append (by decide)).mp
    rw [List.append_assoc, h'.scan_eq, h.scan_eq, h.behind, ih, List.append_assoc]

/-- Blanks change no region. -/
theorem behind_gap {s : Text} (hs : Gap s) (r : Region) : r.behind s = r := by
  induction s with
  | nil => simp
  | cons c s ih =>
    obtain ⟨hb, hn⟩ := hs c List.mem_cons_self
    obtain ⟨h1, h2, h3, h4⟩ := blank_ne hb
    have ih := ih hs.tail
    cases r with
    | code => rw [behind_code hn h3 (fun h => h1 h.1), ih]
    | string => rw [behind_string hn h3 (fun h => h4 h.1), ih]
    | lineComment => rw [behind_lineComment hn, ih]
    | blockComment => rw [behind_blockComment hn (fun h => h2 h.1), ih]

/-- Blanks in code stay as they are. -/
theorem scan_code_gap_append {s : Text} (hs : Gap s) (t : Text) :
    (scan .code (s ++ t)).text = s ++ (scan .code t).text ∧
      Region.code.behind (s ++ t) = Region.code.behind t := by
  induction s with
  | nil => simp
  | cons c s ih =>
    obtain ⟨hb, hn⟩ := hs c List.mem_cons_self
    obtain ⟨h1, -, h3, -⟩ := blank_ne hb
    have ho : ¬ OpensComment c (s ++ t) := fun h => h1 h.1
    simpa [scan_code hn h3 ho, behind_code hn h3 ho] using ih hs.tail

/-- Blanks are hidden behind blanks. -/
theorem gap_scan {s : Text} (hs : Gap s) (r : Region) : Gap (scan r s).text := by
  intro m hm
  obtain ⟨c, hc, rfl | ⟨rfl, -⟩⟩ := exists_of_mem_scan hm
  · exact hs _ hc
  · exact ⟨by decide, by decide⟩

/-! ## 7. The lines of a masked copy -/

/-- The masked copies of some lines, the first of which starts in a region. -/
def codeLines : Region → List Text → List Text
  | _, [] => []
  | r, l :: ls => (scan r l).text :: codeLines (r.behind l).afterNewline ls

/-- The regions in which some lines start, the first of which is given. -/
def lineRegions : Region → List Text → List Region
  | _, [] => []
  | r, l :: ls => r :: lineRegions (r.behind l).afterNewline ls

theorem regions_scan_of_no_newline {l : Text} (h : '\n' ∉ l) (r : Region) :
    (scan r l).regions = [] := by
  induction r, l using reads_induction with
  | nil r => simp
  | newline r cs ih => exact absurd List.mem_cons_self h
  | step r u v r' cs hreads ih =>
    rw [hreads.scan_eq]
    exact ih fun hm => h (List.mem_append_right u hm)

/-- **The masked copy of some lines is made line by line**, each line starting in the region that
the one before it leaves behind.  So properties of whole texts can be shown by induction on their
lines, with the region as the only thing to carry along. -/
theorem scan_joinLines : ∀ {ls : List Text} (r : Region), ls ≠ [] → (∀ l ∈ ls, '\n' ∉ l) →
    Text.lines (scan r (Text.joinLines ls)).text = codeLines r ls ∧
      r :: (scan r (Text.joinLines ls)).regions = lineRegions r ls
  | [], _, h, _ => absurd rfl h
  | [l], r, _, hl => by
    have h : '\n' ∉ l := hl l (by simp)
    simp [Text.joinLines, codeLines, lineRegions, regions_scan_of_no_newline h,
      Text.lines_of_no_newline (no_newline_scan h)]
  | l :: l' :: ls, r, _, hl => by
    have h : '\n' ∉ l := hl l (by simp)
    have ih := scan_joinLines (r.behind l).afterNewline (List.cons_ne_nil l' ls)
      fun x hx => hl x (List.mem_cons_of_mem _ hx)
    rw [Text.joinLines_cons l (List.cons_ne_nil _ _), scan_append_newline]
    simp only [Text.lines_append_newline, Text.lines_of_no_newline (no_newline_scan h),
      regions_scan_of_no_newline h, List.nil_append]
    rw [codeLines, lineRegions]
    exact ⟨congrArg _ ih.1, congrArg _ ih.2⟩

theorem length_codeLines (ls : List Text) : ∀ r : Region, (codeLines r ls).length = ls.length := by
  induction ls with
  | nil => exact fun _ => rfl
  | cons l ls ih => exact fun r => congrArg (· + 1) (ih _)

theorem length_lineRegions (r : Region) (ls : List Text) :
    (lineRegions r ls).length = ls.length := by
  induction ls generalizing r with
  | nil => rfl
  | cons l ls ih => rw [lineRegions, List.length_cons, List.length_cons, ih]

/-- The masked copies of the lines are as long as the lines. -/
theorem map_length_codeLines (ls : List Text) : ∀ r : Region,
    (codeLines r ls).map List.length = ls.map List.length := by
  induction ls with
  | nil => exact fun _ => rfl
  | cons l ls ih => intro r; rw [codeLines, List.map_cons, List.map_cons, length_scan, ih]

/-- The masked copies of the lines show what the lines have. -/
theorem forall₂_hides_codeLines (ls : List Text) : ∀ r : Region,
    List.Forall₂ (List.Forall₂ Hides) ls (codeLines r ls) := by
  induction ls with
  | nil => exact fun _ => .nil
  | cons l ls ih => exact fun r => .cons (forall₂_hides_scan r l) (ih _)

/-- The lines of the masked copy of a text are those of its lines. -/
theorem lines_scan (r : Region) (t : Text) :
    Text.lines (scan r t).text = codeLines r (Text.lines t) := by
  have h := (scan_joinLines r (Text.lines_ne_nil t) (Text.no_newline_of_mem_lines t)).1
  rwa [Text.joinLines_lines] at h

/-- Behind a newline the lines go on from the region in which the text before it ends. -/
theorem codeLines_append_newline (r : Region) (t u : Text) :
    codeLines r (Text.lines (t ++ '\n' :: u)) =
      codeLines r (Text.lines t) ++ codeLines (r.behind t).afterNewline (Text.lines u) := by
  rw [← lines_scan, scan_append_newline, Text.lines_append_newline, lines_scan, lines_scan]

end Mask

namespace Document

/-- The lines of the masked copy, line by line. -/
theorem codeLines_ofText (t : Text) :
    (ofText t).codeLines = Mask.codeLines .code (Text.lines t) := Mask.lines_scan .code t

theorem length_codeLines (t : Text) : (ofText t).codeLines.length = (ofText t).lineCount := by
  rw [codeLines_ofText, Mask.length_codeLines]
  rfl

/-- A line of the masked copy shows what the line has. -/
theorem exists_line_of_codeLines {t code : Text} {n : Nat}
    (h : (ofText t).codeLines[n]? = some code) :
    ∃ l, t.lines[n]? = some l ∧ List.Forall₂ Mask.Hides l code := by
  have hlines := Mask.forall₂_hides_codeLines t.lines .code
  rw [← codeLines_ofText] at hlines
  obtain ⟨hn, rfl⟩ := List.getElem?_eq_some_iff.mp h
  have hn' : n < t.lines.length := by rwa [hlines.length_eq]
  exact ⟨t.lines[n], List.getElem?_eq_getElem hn', (List.forall₂_iff_get.mp hlines).2 n hn' hn⟩

/-- The regions of the lines, line by line. -/
theorem regions_ofText (t : Text) :
    (ofText t).regions = Mask.lineRegions .code (Text.lines t) := by
  have h := (Mask.scan_joinLines .code (Text.lines_ne_nil t) (Text.no_newline_of_mem_lines t)).2
  rwa [Text.joinLines_lines] at h

theorem length_regions (t : Text) : (ofText t).regions.length = (ofText t).lineCount := by
  rw [regions_ofText, Mask.length_lineRegions]
  rfl

end Document
end HypnoScript
