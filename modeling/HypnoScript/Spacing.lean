/-
# Spacing inside a line

A line is normalised with as few changes as can be: a space is put in where one is missing, and the
blanks in front of a `;` are taken out.  Where a space is missing is decided for each cut between
two characters of the line, from what stands on either side of it in the masked copy:

* around an operator between two operands, and around an operator that is a word;
* behind a comma;
* behind a keyword in front of a parenthesis, bracket, brace or literal;
* behind a colon in front of the name of a type;
* in front of an opening brace behind an operand, and behind a closing brace in front of a word.

For the first two no space is put in next to a blank, inside an opening parenthesis or bracket, or
in front of a `;`, a comma or a closing parenthesis or bracket.
-/
import HypnoScript.Spacing.Operator

namespace HypnoScript
namespace Spacing

/-! ## 1. Cells and cuts -/

/-- A character of a line, with the one in its masked copy and what that means for operators. -/
structure Cell where
  raw : Char
  code : Char
  mark : Mark
  deriving DecidableEq, Repr

/-- The cells of a line.  A masked copy that is too long is cut, one that is too short is filled up
with blanks. -/
def cells (line code : Text) : List Cell :=
  let code := code.take line.length ++ List.replicate (line.length - code.length) ' '
  List.zipWith (fun raw (c, mark) => ⟨raw, c, mark⟩) line (code.zip (marks code))

/-- A cut of a line: the cells in front of it, from the nearest on, and the cells behind it. -/
structure Cut where
  before : List Cell
  after : List Cell
  deriving DecidableEq, Repr

namespace Cut

/-- The code in front of the cut, from the nearest character on. -/
def codeBefore (k : Cut) : Text := k.before.map Cell.code

/-- The code behind the cut. -/
def codeAfter (k : Cut) : Text := k.after.map Cell.code

/-- Whether the nearest cell in front of the cut is such. -/
def follows (k : Cut) (p : Cell → Bool) : Bool := k.before.head?.any p

/-- Whether the nearest cell behind the cut is such. -/
def precedes (k : Cut) (p : Cell → Bool) : Bool := k.after.head?.any p

/-! ## 2. Where a space may stand -/

/-- Whether a space may be put in behind what is in front of the cut. -/
def looseBefore (k : Cut) : Bool :=
  k.follows fun c => !Text.isBlank c.raw && c.raw != '(' && c.raw != '['

/-- Whether a space may be put in before what is behind the cut. -/
def looseAfter (k : Cut) : Bool :=
  k.precedes fun c =>
    !Text.isBlank c.raw && c.raw != ';' && c.raw != ',' && c.raw != ')' && c.raw != ']'

/-! ## 3. Words that end or start at the cut -/

/-- Whether one of the words ends at the cut, and no point stands in front of it. -/
def endsWordOf (k : Cut) (words : List String) : Bool :=
  let word := wordBefore k.codeBefore
  words.contains (String.ofList word) && (k.codeBefore.drop word.length).head? != some '.'

/-- Whether one of the words starts at the cut, and no point stands in front of it. -/
def startsWordOf (k : Cut) (words : List String) : Bool :=
  k.follows (fun c => !Text.isWord c.code && c.code != '.') &&
    words.contains (String.ofList (Text.leadingWord k.codeAfter))

/-- The operators that are words. -/
def wordOperators : List String := operatorSynonyms.map (·.1)

/-- The keywords that a space separates from a group behind them. -/
def groupKeywords : List String := coreKeywords.filter (!callLikeKeywords.contains ·)

/-! ## 4. The rules -/

/-- An operator between two operands starts or ends at the cut. -/
def atOperator (k : Cut) : Bool :=
  (k.precedes (·.mark.opens) && k.looseBefore) || (k.follows (·.mark.closes) && k.looseAfter)

/-- An operator that is a word starts or ends at the cut. -/
def atWordOperator (k : Cut) : Bool :=
  (k.startsWordOf wordOperators && k.looseBefore) ||
    (!Text.headIsWord k.codeAfter && k.endsWordOf wordOperators && k.looseAfter)

/-- A comma ends at the cut. -/
def afterComma (k : Cut) : Bool := k.follows (·.code == ',') && k.looseAfter

/-- A keyword ends at the cut, and a group or a literal starts. -/
def beforeGroup (k : Cut) : Bool :=
  k.precedes (fun c => c.code == '(' || c.code == '{' || c.code == '[' || c.code == '"') &&
    k.endsWordOf groupKeywords

/-- A colon ends at the cut, and the name of a type starts. -/
def beforeType (k : Cut) : Bool :=
  k.follows (·.code == ':') &&
    typeKeywords.contains (String.ofList (Text.leadingWord k.codeAfter))

/-- An operand ends at the cut, and a block starts. -/
def beforeBlock (k : Cut) : Bool := k.precedes (·.code == '{') && endsOperand k.codeBefore

/-- A block ends at the cut, and a word starts. -/
def afterBlock (k : Cut) : Bool := k.follows (·.code == '}') && Text.headIsWord k.codeAfter

/-- Whether a space is missing at the cut. -/
def lacksSpace (k : Cut) : Bool :=
  k.atOperator || k.atWordOperator || k.afterComma || k.beforeGroup || k.beforeType ||
    k.beforeBlock || k.afterBlock

end Cut

/-! ## 5. Blanks in front of a terminator -/

/-- The blanks that are taken out in front of a `;`. -/
def isGapChar (c : Char) : Bool := c == ' ' || c == '\t'

/-- Whether nothing but such blanks stands in front of the next `;`. -/
def reachesTerminator : List Cell → Bool
  | [] => false
  | c :: cs => c.code == ';' || (isGapChar c.raw && reachesTerminator cs)

/-- Whether a cell is taken out: a blank that is followed by nothing but blanks up to a `;`, and
does not belong to the indentation of the line. -/
def isErased (before : List Cell) (c : Cell) (after : List Cell) : Bool :=
  isGapChar c.raw && reachesTerminator after && before.any (!isGapChar ·.raw)

/-! ## 6. The spaced line -/

/-- The rest of a line, spaced, behind the cells that come before it. -/
def spaceFrom (before : List Cell) : List Cell → Text
  | [] => []
  | c :: cs =>
    (if Cut.lacksSpace ⟨before, c :: cs⟩ then [' '] else []) ++
      (if isErased before c cs then [] else [c.raw]) ++ spaceFrom (c :: before) cs

end Spacing

/-- The line with its spacing normalised, going by its masked copy. -/
def spaceLine (line code : Text) : Text := Spacing.spaceFrom [] (Spacing.cells line code)

end HypnoScript
