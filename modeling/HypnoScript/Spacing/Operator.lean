/-
# Operators in a line of code

A line of code is read as a sequence of pieces, from the left: an operator of two characters where
one stands, else an operator of one character, else the character itself.  Some operators are set
off by spaces where they stand between two operands; the others are only read so that their
characters are not taken for those.
-/
import HypnoScript.Dialect

namespace HypnoScript
namespace Spacing

/-! ## 1. Pieces -/

/-- A piece of a line of code. -/
inductive Piece where
  /-- An operator, and whether it is one that is set off by spaces. -/
  | operator (symbol : Text) (spaced : Bool)
  /-- A character that belongs to no operator. -/
  | other (c : Char)
  deriving DecidableEq, Repr

/-- The characters of a piece. -/
def Piece.text : Piece → Text
  | .operator symbol _ => symbol
  | .other c => [c]

/-- The operators of two characters that are set off by spaces. -/
def spacedPairs : List (Char × Char) :=
  [('=', '='), ('!', '='), ('>', '='), ('<', '='), ('&', '&'), ('|', '|'), ('?', '?'), ('+', '='),
    ('-', '='), ('*', '='), ('/', '='), ('%', '='), ('*', '*')]

/-- The operators of two characters that are left as they are. -/
def tightPairs : List (Char × Char) :=
  [('=', '>'), ('-', '>'), ('+', '+'), ('-', '-'), ('?', '.')]

/-- The operators of one character, which are all set off by spaces. -/
def spacedSingles : List Char := ['=', '+', '-', '*', '/', '%', '<', '>']

/-- The piece of a character that starts no operator of two characters. -/
def single (c : Char) : Piece :=
  if c ∈ spacedSingles then .operator [c] true else .other c

/-- The operator of two characters, if they are one. -/
def pair? (a b : Char) : Option Piece :=
  if (a, b) ∈ spacedPairs then some (.operator [a, b] true)
  else if (a, b) ∈ tightPairs then some (.operator [a, b] false)
  else none

/-- The pieces of a line of code. -/
def pieces : Text → List Piece
  | [] => []
  | [a] => [single a]
  | a :: b :: cs =>
    match pair? a b with
    | some p => p :: pieces cs
    | none => single a :: pieces (b :: cs)

/-- The operators of a line of code, from the left. -/
def operators (code : Text) : List Text :=
  (pieces code).filterMap fun
    | .operator symbol _ => some symbol
    | .other _ => none

/-! ## 2. Operators between two operands -/

/-- Whether what stands in front ends like an operand: with a word, a closing parenthesis or
bracket or a literal.  The characters in front are given from the nearest on. -/
def endsOperand (before : Text) : Bool :=
  match before with
  | c :: _ => Text.isWord c || c == ')' || c == ']' || c == '"'
  | [] => false

/-- The word that the characters in front end with. -/
def wordBefore (before : Text) : Text := (Text.leadingWord before).reverse

/-- Whether a sign here belongs to the exponent of a number. -/
def endsExponent (before : Text) : Bool :=
  match before with
  | e :: d :: _ => (e == 'e' || e == 'E') && Text.isDecimal d
  | _ => false

/-- Whether an operator stands between two operands, going by what is in front of it: an operand
that is neither a keyword nor, for a sign, the start of an exponent. -/
def isBinary (before symbol : Text) : Bool :=
  let before := before.dropWhile Text.isBlank
  endsOperand before && !coreKeywords.contains (String.ofList (wordBefore before)) &&
    !((symbol == ['+'] || symbol == ['-']) && endsExponent before)

/-! ## 3. Marks -/

/-- What a character means for the spaces around an operator: whether one that is to be set off
starts with it, and whether one ends with it. -/
structure Mark where
  opens : Bool
  closes : Bool
  deriving DecidableEq, Repr

/-- The marks of the characters of an operator that is to be set off. -/
def spread : Text → List Mark
  | [] => []
  | [_] => [⟨true, true⟩]
  | _ :: cs => ⟨true, false⟩ :: (List.replicate (cs.length - 1) ⟨false, false⟩ ++ [⟨false, true⟩])

/-- The marks of the characters of some pieces, behind the characters `before`. -/
def marksFrom (before : Text) : List Piece → List Mark
  | [] => []
  | .other c :: ps => ⟨false, false⟩ :: marksFrom (c :: before) ps
  | .operator symbol spaced :: ps =>
    (if spaced && isBinary before symbol then spread symbol
      else List.replicate symbol.length ⟨false, false⟩) ++
      marksFrom (symbol.reverse ++ before) ps

/-- The marks of the characters of a line of code. -/
def marks (code : Text) : List Mark := marksFrom [] (pieces code)

end Spacing
end HypnoScript
