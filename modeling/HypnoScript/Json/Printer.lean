/-
# Writing JSON

Two ways to write a value: on one line without blanks (`compact`), and indented by two blanks per
level with a line per item or field (`pretty`).  Characters beyond ASCII are written as they are.
-/
import HypnoScript.Json.Value
import HypnoScript.Text.Spelling

namespace HypnoScript
namespace Json

/-- How a character is written inside a string. -/
def escaped (c : Char) : List Char :=
  if c = '"' then ['\\', '"']
  else if c = '\\' then ['\\', '\\']
  else if c = '\n' then ['\\', 'n']
  else if c = '\r' then ['\\', 'r']
  else if c = '\t' then ['\\', 't']
  else if c = '\x08' then ['\\', 'b']
  else if c = '\x0c' then ['\\', 'f']
  else if c.toNat < 0x20 then '\\' :: 'u' :: Text.hexDigits 4 c.toNat
  else [c]

/-- A string between quotation marks. -/
def quoted (s : String) : String :=
  "\"" ++ String.ofList (s.toList.flatMap escaped) ++ "\""

/-- A value that is neither a list nor an object.  Fractions are written with an exponent. -/
def plain : Value → String
  | .null => "null"
  | .bool b => if b then "true" else "false"
  | .int n => toString n
  | .float d => toString d.mantissa ++ "e" ++ toString d.exponent
  | .nonFinite => "NaN"
  | .string s => quoted s
  | .list _ => "[]"
  | .object _ => "\x7b\x7d"

mutual

/-- A value on one line. -/
def compact : Value → String
  | .list xs => "[" ++ ",".intercalate (compactItems xs) ++ "]"
  | .object fs => "\x7b" ++ ",".intercalate (compactFields fs) ++ "\x7d"
  | v => plain v

/-- The items of a list. -/
def compactItems : List Value → List String
  | [] => []
  | x :: xs => compact x :: compactItems xs

/-- The fields of an object. -/
def compactFields : List (String × Value) → List String
  | [] => []
  | (name, x) :: fs => (quoted name ++ ":" ++ compact x) :: compactFields fs

end

/-- Parts between two brackets, each on a line of its own. -/
def block (opening closing margin : String) : List String → String
  | [] => opening ++ closing
  | parts =>
    opening ++ "\n" ++ margin ++ "  " ++ (",\n" ++ margin ++ "  ").intercalate parts ++ "\n" ++
      margin ++ closing

mutual

/-- A value with a line for every item and field, behind a margin. -/
def prettyAt (margin : String) : Value → String
  | .list xs => block "[" "]" margin (prettyItems (margin ++ "  ") xs)
  | .object fs => block "\x7b" "\x7d" margin (prettyFields (margin ++ "  ") fs)
  | v => plain v

/-- The items of a list. -/
def prettyItems (margin : String) : List Value → List String
  | [] => []
  | x :: xs => prettyAt margin x :: prettyItems margin xs

/-- The fields of an object. -/
def prettyFields (margin : String) : List (String × Value) → List String
  | [] => []
  | (name, x) :: fs => (quoted name ++ ": " ++ prettyAt margin x) :: prettyFields margin fs

end

/-- A value with a line for every item and field. -/
def pretty (v : Value) : String := prettyAt "" v

end Json
end HypnoScript
