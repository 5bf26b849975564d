/-
# Texts and their lines

A text is a sequence of characters, each one Unicode code point.  All columns, offsets and lengths
count characters.  Lines are separated by newlines alone, so every text has at least one line;
`joinLines` puts them together again.  `wordOffsets` finds where a word stands in a text as a whole
word.
-/
import HypnoScript.Text.Alphabet

namespace HypnoScript

/-- A text, character by character. -/
abbrev Text := List Char

namespace Text

/-! ## 1. Lines -/

/-- The pieces of a text between the separators in it. -/
def split (separator : Char) : Text → List Text
  | [] => [[]]
  | c :: cs =>
    if c = separator then [] :: split separator cs
    else (split separator cs).modifyHead (c :: ·)

/-- The lines of a text: the pieces between its newlines. -/
def lines (t : Text) : List Text := split '\n' t

/-- The text that has these lines. -/
def joinLines : List Text → Text
  | [] => []
  | [l] => l
  | l :: ls => l ++ '\n' :: joinLines ls

theorem split_ne_nil (separator : Char) (t : Text) : split separator t ≠ [] := by
  induction t with
  | nil => simp [split]
  | cons c cs ih =>
    rw [split]
    split
    · exact List.cons_ne_nil _ _
    · obtain ⟨l, ls, h⟩ := List.exists_cons_of_ne_nil ih
      simp [h]

/-- A separator ends a piece, whatever stands in front of it. -/
theorem split_append_cons (separator : Char) (t u : Text) :
    split separator (t ++ separator :: u) = split separator t ++ split separator u := by
  induction t with
  | nil => simp [split]
  | cons c cs ih =>
    obtain ⟨l, ls, h⟩ := List.exists_cons_of_ne_nil (split_ne_nil separator cs)
    by_cases hc : c = separator
    · simp [split, hc, ih]
    · simp [split, hc, ih, h]

theorem lines_ne_nil (t : Text) : lines t ≠ [] := split_ne_nil '\n' t

/-- A newline ends a line, whatever stands in front of it. -/
theorem lines_append_newline (t u : Text) : lines (t ++ '\n' :: u) = lines t ++ lines u :=
  split_append_cons '\n' t u

theorem joinLines_cons (l : Text) {ls : List Text} (h : ls ≠ []) :
    joinLines (l :: ls) = l ++ '\n' :: joinLines ls := by
  obtain ⟨l', ls, rfl⟩ := List.exists_cons_of_ne_nil h
  rfl

/-- The lines of a text are the text again when they are put together. -/
theorem joinLines_lines (t : Text) : joinLines (lines t) = t := by
  induction t with
  | nil => rfl
  | cons c cs ih =>
    obtain ⟨l, ls, h⟩ := List.exists_cons_of_ne_nil (lines_ne_nil cs)
    rw [h] at ih
    by_cases hc : c = '\n'
    · subst hc
      rw [show lines ('\n' :: cs) = [] :: (l :: ls) by rw [← h]; simp [lines, split]]
      rw [joinLines_cons _ (List.cons_ne_nil _ _), ih]
      rfl
    · rw [show lines (c :: cs) = (c :: l) :: ls by
        rw [lines] at h; simp [lines, split, hc, h]]
      cases ls with
      | nil => simpa [joinLines] using ih
      | cons l' ls => simpa [joinLines] using ih

/-! ## 2. Cutting at the ends -/

/-- The text without the characters of one kind at its end. -/
def dropTrailing (p : Char → Bool) (t : Text) : Text := (t.reverse.dropWhile p).reverse

/-- The text without the blanks at its start. -/
def trimLeft (t : Text) : Text := t.dropWhile isBlank

/-- The text without the blanks at its end. -/
def trimRight (t : Text) : Text := dropTrailing isBlank t

/-- The text without the blanks at either end. -/
def trim (t : Text) : Text := trimRight (trimLeft t)

/-! ## 3. Looking at the start -/

/-- What is left of the text after a start that it has. -/
def afterStart? : (start : Text) → Text → Option Text
  | [], t => some t
  | _ :: _, [] => none
  | s :: start, c :: cs => if s = c then afterStart? start cs else none

theorem afterStart?_eq_some_iff {start t rest : Text} :
    afterStart? start t = some rest ↔ t = start ++ rest := by
  fun_induction afterStart? start t with
  | case1 t => simp
  | case2 => simp
  | case3 s start cs ih => simpa using ih
  | case4 s start c cs h => simp [Ne.symm h]

/-- Whether the text starts with these characters. -/
def startsWith (t start : Text) : Bool := (afterStart? start t).isSome

theorem startsWith_iff {t start : Text} : startsWith t start ↔ start <+: t := by
  rw [startsWith, Option.isSome_iff_exists]
  simp only [afterStart?_eq_some_iff]
  exact ⟨fun ⟨r, h⟩ => ⟨r, h.symm⟩, fun ⟨r, h⟩ => ⟨r, h.symm⟩⟩

/-- Whether the text ends with these characters. -/
def endsWith (t ending : Text) : Bool := startsWith t.reverse ending.reverse

/-- The word that stands at the start of the text, empty if there is none. -/
def leadingWord (t : Text) : Text := t.takeWhile isWord

/-- Whether the next character, if there is one, is a word character. -/
def headIsWord (t : Text) : Bool := t.head?.any isWord

/-! ## 4. Replacing -/

/-- The text with every occurrence of a pattern replaced, from the left; `skip` characters of the
last occurrence are still to be passed over. -/
def replaceFrom (pattern new : Text) : (skip : Nat) → Text → Text
  | _, [] => []
  | skip + 1, _ :: cs => replaceFrom pattern new skip cs
  | 0, c :: cs =>
    if startsWith (c :: cs) pattern then new ++ replaceFrom pattern new (pattern.length - 1) cs
    else c :: replaceFrom pattern new 0 cs

/-- The text with every occurrence of a pattern, which is not empty, replaced. -/
def replace (pattern new t : Text) : Text := replaceFrom pattern new 0 t

/-! ## 5. Whole words

A boundary is a place between two characters, or at an end of the text, of whose two neighbours
exactly one is a word character; a word stands as a whole where there is a boundary before it and
behind it.  The word looked for is any text: one that starts or ends with no word character then
needs a word character outside.  Occurrences do not overlap; the search goes on behind the last one
found. -/

/-- Whether the last of some characters is a word character; `before` tells it for the one in front
of them. -/
def lastIsWord (before : Bool) (t : Text) : Bool := (t.getLast?.map isWord).getD before

/-- Whether there is a word boundary in front of the text; `before` tells whether the character
before it is a word character. -/
def atBoundary (before : Bool) (t : Text) : Bool := before != t.headIsWord

/-- Whether the word stands at the start of the text as a whole word. -/
def wordAtStart (word : Text) (before : Bool) (t : Text) : Bool :=
  atBoundary before t &&
    match afterStart? word t with
    | some rest => atBoundary (lastIsWord before word) rest
    | none => false

/-- The offsets at which the word stands as a whole word, in a text that starts at `offset`;
`skip` characters of the last occurrence are still to be passed over. -/
def wordOffsetsFrom (word : Text) (offset skip : Nat) (before : Bool) : Text → List Nat
  | [] => if skip = 0 ∧ wordAtStart word before [] then [offset] else []
  | c :: cs =>
    match skip with
    | skip + 1 => wordOffsetsFrom word (offset + 1) skip (isWord c) cs
    | 0 =>
      if wordAtStart word before (c :: cs) then
        offset :: wordOffsetsFrom word (offset + 1) (word.length - 1) (isWord c) cs
      else wordOffsetsFrom word (offset + 1) 0 (isWord c) cs

/-- The offsets at which the word stands in the text as a whole word, from the left. -/
def wordOffsets (word t : Text) : List Nat := wordOffsetsFrom word 0 0 false t

end Text
end HypnoScript
