/-
# The shape of a line

How many braces a line opens and closes, and how it starts and ends.  The terminator check and the
layout both go by it.  A shape is read from the line itself, which decides whether the line is
blank or a comment, and from its masked copy, which decides everything else.
-/
import HypnoScript.Text.Basic

namespace HypnoScript

/-- What a line looks like from the outside. -/
structure LineShape where
  /-- The line without the blanks around it. -/
  trimmed : Text
  /-- Its masked copy without the blanks around it. -/
  code : Text
  /-- Closing braces at the start of the code, with nothing but spaces and tabs between them. -/
  leadingClosers : Nat
  /-- Opening braces behind those that are still open at the end of the line. -/
  opened : Nat
  /-- Closing braces behind the leading ones that close nothing on this line. -/
  unmatchedClosers : Nat
  /-- Opening parentheses and brackets less closing ones. -/
  openGroups : Int
  deriving DecidableEq, Repr

namespace LineShape

/-! ## 1. Counting braces -/

/-- Braces met so far: how many are open, and how many closed nothing. -/
structure Tally where
  opened : Nat
  unmatched : Nat
  groups : Int
  deriving DecidableEq, Repr

/-- One character more. -/
def Tally.step (t : Tally) (c : Char) : Tally :=
  if c = '{' then { t with opened := t.opened + 1 }
  else if c = '}' then
    if t.opened = 0 then { t with unmatched := t.unmatched + 1 }
    else { t with opened := t.opened - 1 }
  else if c = '(' ∨ c = '[' then { t with groups := t.groups + 1 }
  else if c = ')' ∨ c = ']' then { t with groups := t.groups - 1 }
  else t

/-- The characters that the leading closers may stand between. -/
def inLead (c : Char) : Bool := c == '}' || c == ' ' || c == '\t'

/-- The shape of a line with the given masked copy. -/
def of (line code : Text) : LineShape :=
  let code := code.trim
  let tally := (code.dropWhile inLead).foldl Tally.step ⟨0, 0, 0⟩
  { trimmed := line.trim
    code := code
    leadingClosers := (code.takeWhile inLead).count '}'
    opened := tally.opened
    unmatchedClosers := tally.unmatched
    openGroups := tally.groups }

/-! ## 2. What a shape tells -/

/-- Nothing but blanks. -/
def isBlank (s : LineShape) : Bool := s.trimmed.isEmpty

/-- The line itself starts with a comment. -/
def isComment (s : LineShape) : Bool :=
  s.trimmed.startsWith ['/', '/'] || s.trimmed.startsWith ['/', '*']

/-- The code ends with an opening brace. -/
def opensBlock (s : LineShape) : Bool := s.code.getLast? == some '{'

/-- The code ends with a closing brace. -/
def closesBlock (s : LineShape) : Bool := s.code.getLast? == some '}'

/-- The code ends with a brace. -/
def isBlockBoundary (s : LineShape) : Bool := s.opensBlock || s.closesBlock

/-- More groups are opened than closed, so the statement goes on below. -/
def continues (s : LineShape) : Bool := s.openGroups > 0

/-- Whether the code starts with one of the words, with no word character behind it. -/
def startsWithWord (s : LineShape) (words : List Text) : Bool :=
  words.any fun w => (Text.afterStart? w s.code).any fun rest => !rest.headIsWord

end LineShape
end HypnoScript
