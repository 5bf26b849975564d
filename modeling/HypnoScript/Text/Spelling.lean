/-
# Numbers and texts spelled out

Numbers as hexadecimal digits (`hexDigits`), and the whole number that a word on the command line
stands for (`integer?`): decimal digits of any script, with single underscores between them if need
be, an optional sign in front, and blanks around it all.

A text between quotation marks (`quoted`), for messages about names that may hold anything.  Single
marks are used, unless the text has a single mark and no double one.  The mark itself, the backslash
and the characters without a shape of their own are written as escapes.
-/
import HypnoScript.Text.Basic
import HypnoScript.Text.HiddenRanges

namespace HypnoScript
namespace Text

/-! ## 1. Numbers -/

/-- A hexadecimal digit. -/
def hexDigit (n : Nat) : Char := if n < 10 then Char.ofNat (48 + n) else Char.ofNat (87 + n)

/-- The last `count` hexadecimal digits of a number. -/
def hexDigits : (count : Nat) → Nat → Text
  | 0, _ => []
  | count + 1, n => hexDigits count (n / 16) ++ [hexDigit (n % 16)]

/-- The number of some digits, each of which may be followed by an underscore and another digit. -/
def digitsFrom (n : Nat) : Text → Option Nat
  | [] => some n
  | '_' :: c :: cs => (decimalValue? c).bind fun d => digitsFrom (n * 10 + d) cs
  | c :: cs => (decimalValue? c).bind fun d => digitsFrom (n * 10 + d) cs

/-- The number of a digit and what follows it. -/
def unsigned? : Text → Option Nat
  | [] => none
  | c :: cs => (decimalValue? c).bind fun d => digitsFrom d cs

/-- The whole number that a text stands for. -/
def integer? (t : Text) : Option Int :=
  match t.trim with
  | '+' :: cs => (unsigned? cs).map fun n => (n : Int)
  | '-' :: cs => (unsigned? cs).map fun n => -(n : Int)
  | cs => (unsigned? cs).map fun n => (n : Int)

/-! ## 2. Quoted texts -/

/-- Whether a character is written as an escape because it has no shape of its own. -/
def isHidden (c : Char) : Bool := c.toNat < 0x20 || inRanges hiddenRanges c.toNat

/-- How a character is written between two marks. -/
def quotedChar (mark c : Char) : List Char :=
  if c = mark ∨ c = '\\' then ['\\', c]
  else if c = '\n' then ['\\', 'n']
  else if c = '\r' then ['\\', 'r']
  else if c = '\t' then ['\\', 't']
  else if isHidden c then
    if c.toNat < 0x100 then '\\' :: 'x' :: hexDigits 2 c.toNat
    else if c.toNat < 0x10000 then '\\' :: 'u' :: hexDigits 4 c.toNat
    else '\\' :: 'U' :: hexDigits 8 c.toNat
  else [c]

/-- The text between quotation marks. -/
def quoted (s : String) : String :=
  let t := s.toList
  let mark := if t.contains '\x27' && !t.contains '"' then '"' else '\x27'
  String.ofList (mark :: t.flatMap (quotedChar mark) ++ [mark])

end Text
end HypnoScript
