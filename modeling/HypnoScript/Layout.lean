/-
# Layout

A text is laid out line by line.  Lines that start inside a literal or a block comment, and lines
that start with a comment, stay as they are; a blank line becomes empty; every other line is spaced
and indented by the number of blocks that are open around it.  Carriage returns at the end of a line
are dropped.

`format` lays out any text.  What is asked for from outside goes through `format?`, which refuses a
width of indentation that no line has room for.
-/
import HypnoScript.Dialect
import HypnoScript.Document
import HypnoScript.LineShape
import HypnoScript.Spacing

namespace HypnoScript
namespace Layout

/-- The level of a line: the blocks open before it, less those that it closes first, and one less
again for a line that starts with a dedent keyword. -/
def levelOf (dialect : Dialect) (s : LineShape) (level : Nat) : Nat :=
  level - s.leadingClosers - if s.startsWithWord dialect.dedentKeywords then 1 else 0

/-- The number of blocks open behind a line. -/
def nextLevel (s : LineShape) (level : Nat) : Nat :=
  level + s.opened - (s.leadingClosers + s.unmatchedClosers)

/-- A spaced line without the blanks around it.  A literal that is open at its end keeps its blanks
there. -/
def body (line code : Text) (endsInString : Bool) : Text :=
  let spaced := spaceLine line code
  if endsInString then spaced.trimLeft else spaced.trim

/-- Whether a line stays as it is. -/
def isVerbatim (s : LineShape) (r : Region) : Bool :=
  r == .blockComment || r == .string || s.isComment

/-- A line of shape `s` that starts in region `r`, laid out. -/
def layLine (dialect : Dialect) (level : Nat) (s : LineShape) (line code : Text) (r : Region)
    (endsInString : Bool) : Text :=
  let line := line.dropTrailing (· == '\r')
  if isVerbatim s r then line
  else if s.isBlank then []
  else
    List.replicate (dialect.indentUnit * levelOf dialect s level) ' ' ++
      body line code endsInString

/-- The lines laid out, with so many blocks open before the first of them. -/
def layLines (dialect : Dialect) (level : Nat) :
    List Text → List Text → List Region → List Text
  | line :: lines, code :: codes, r :: regions =>
    let s := LineShape.of line code
    layLine dialect level s line code r (regions.head? == some .string) ::
      layLines dialect (nextLevel s level) lines codes regions
  | _, _, _ => []

end Layout

/-- The text laid out. -/
def format (dialect : Dialect) (t : Text) : Text :=
  let d := Document.ofText t
  Text.joinLines (Layout.layLines dialect 0 d.lines d.codeLines d.regions)

namespace Layout

/-- A width of indentation that no line has room for. -/
structure NoRoom where
  width : Int
  deriving DecidableEq, Repr

/-- What is wrong with the width. -/
def NoRoom.message (e : NoRoom) : String := s!"No line has room for an indentation of {e.width}"

/-- Whether lines have room for the indentation: its width has to be a number of 64 bits. -/
def hasRoom (dialect : Dialect) : Bool :=
  -Int.pow 2 63 ≤ dialect.indentWidth && dialect.indentWidth < Int.pow 2 63

end Layout

/-- The text laid out, if lines have room for the indentation. -/
def format? (dialect : Dialect) (t : Text) : Except Layout.NoRoom Text :=
  if Layout.hasRoom dialect then .ok (format dialect t) else .error ⟨dialect.indentWidth⟩

end HypnoScript
