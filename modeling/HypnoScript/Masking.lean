/-
# Masking: what is code and what is not

A text consists of code, string literals, line comments and block comments.  The *masked copy* of a
text has the same length and the same line breaks, and only the code and the quotation marks of the
literals are left in it: everything else becomes a blank.  So what is found in the masked copy is
code, and stands in the text itself at the same offset.

* A literal runs from a quotation mark to the next one that no backslash escapes.  It may run over
  several lines.  A backslash escapes the character behind it, but never a newline.
* `//` starts a comment that ends with the line, `/*` one that ends with the next `*/`.
* Carriage returns stay as they are, wherever they stand.

`Mask.of` also tells in which region every line starts (`Mask.regions`).
-/
import HypnoScript.Text.Basic

namespace HypnoScript

/-- What the characters of a text belong to. -/
inductive Region where
  | code
  | string
  | lineComment
  | blockComment
  deriving DecidableEq, Repr

/-- The region behind a newline: only a line comment ends there. -/
def Region.afterNewline : Region → Region
  | .lineComment => .code
  | r => r

/-- A masked copy, with the regions in which its lines start. -/
structure Mask where
  text : Text
  regions : List Region
  deriving DecidableEq, Repr

namespace Mask

/-- What stands in the masked copy for a character that is not code. -/
def hide (c : Char) : Char := if c = '\r' then '\r' else ' '

/-- The mask that starts with a character more. -/
def push (c : Char) (m : Mask) : Mask := { m with text := c :: m.text }

/-- The mask that starts with a newline more, behind which a line starts in `r`. -/
def pushLine (r : Region) (m : Mask) : Mask := ⟨'\n' :: m.text, r :: m.regions⟩

@[simp] theorem text_push (c : Char) (m : Mask) : (m.push c).text = c :: m.text := rfl

@[simp] theorem regions_push (c : Char) (m : Mask) : (m.push c).regions = m.regions := rfl

@[simp] theorem text_pushLine (r : Region) (m : Mask) : (m.pushLine r).text = '\n' :: m.text := rfl

@[simp] theorem regions_pushLine (r : Region) (m : Mask) :
    (m.pushLine r).regions = r :: m.regions := rfl

/-- The masked copy of a text that starts in a region.  Of the regions, that of the first line is
left out. -/
def scan : Region → Text → Mask
  | _, [] => ⟨[], []⟩
  | r, '\n' :: cs => (scan r.afterNewline cs).pushLine r.afterNewline
  | .code, '"' :: cs => (scan .string cs).push '"'
  | .code, '/' :: '/' :: cs => ((scan .lineComment cs).push ' ').push ' '
  | .code, '/' :: '*' :: cs => ((scan .blockComment cs).push ' ').push ' '
  | .code, c :: cs => (scan .code cs).push c
  | .string, '"' :: cs => (scan .code cs).push '"'
  | .string, '\\' :: '\n' :: cs => ((scan .string cs).pushLine .string).push ' '
  | .string, '\\' :: c :: cs => ((scan .string cs).push (hide c)).push ' '
  | .string, c :: cs => (scan .string cs).push (hide c)
  | .lineComment, c :: cs => (scan .lineComment cs).push (hide c)
  | .blockComment, '*' :: '/' :: cs => ((scan .code cs).push ' ').push ' '
  | .blockComment, c :: cs => (scan .blockComment cs).push (hide c)

/-- The mask of a whole text, which starts as code. -/
def of (t : Text) : Mask :=
  let m := scan .code t
  { m with regions := .code :: m.regions }

end Mask

/-- The masked copy of a text. -/
def masked (t : Text) : Text := (Mask.of t).text

end HypnoScript
