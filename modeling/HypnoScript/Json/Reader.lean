/-
# Reading JSON

`parse` reads one value from a text.  When it fails it tells the offset at which reading stopped:

* where a value, a field name, a colon or a comma was expected, and where text goes on behind the
  value;
* at the opening quotation mark of a string that does not end or is no text, at the backslash of an
  unknown escape, at the `u` of an incomplete one, and at a control character inside a string.

Inside the reader a failure is the rest of the text from that place on.  The names `NaN`, `Infinity`
and `-Infinity` are values.  A string with an escape for half of a pair of units is refused unless
the other half follows: it is no Unicode text, and all texts here are.
-/
import HypnoScript.Json.Value
import HypnoScript.Text.Basic

namespace HypnoScript
namespace Json

/-- What reading leads to: a result and the rest of the text, or the place where it stopped. -/
abbrev Reading (α : Type) := Except Text (α × Text)

/-! ## 1. Blanks and numbers -/

/-- The characters that may stand between the parts of a value. -/
def isSpace (c : Char) : Bool := c == ' ' || c == '\t' || c == '\n' || c == '\r'

/-- The text without the space at its start. -/
def skipSpace (t : Text) : Text := t.dropWhile isSpace

/-- The number that digits stand for. -/
def digitsValue (ds : Text) : Nat := ds.foldl (fun n c => n * 10 + (c.toNat - 48)) 0

/-- The digits behind a point, if at least one stands there. -/
def readFraction : Text → Option (Text × Text)
  | '.' :: cs =>
    let ds := cs.takeWhile Char.isDigit
    if ds.isEmpty then none else some (ds, cs.dropWhile Char.isDigit)
  | _ => none

/-- An exponent: the letter, an optional sign and at least one digit. -/
def readExponent : Text → Option (Int × Text)
  | e :: cs =>
    if e = 'e' ∨ e = 'E' then
      let (negative, cs) := match cs with
        | '-' :: r => (true, r)
        | '+' :: r => (false, r)
        | r => (false, r)
      let ds := cs.takeWhile Char.isDigit
      if ds.isEmpty then none
      else
        let n : Int := digitsValue ds
        some (if negative then -n else n, cs.dropWhile Char.isDigit)
    else none
  | [] => none

/-- The whole part of a number without its sign: a zero alone, or digits that start with another. -/
def readWhole : Text → Option (Text × Text)
  | '0' :: cs => some (['0'], cs)
  | cs =>
    let ds := cs.takeWhile Char.isDigit
    if ds.isEmpty then none else some (ds, cs.dropWhile Char.isDigit)

/-- A number. -/
def readNumber (t : Text) : Reading Value :=
  let (negative, cs) := match t with
    | '-' :: r => (true, r)
    | r => (false, r)
  let sign (n : Int) : Int := if negative then -n else n
  match readWhole cs with
  | none => .error t
  | some (ds, rest) =>
    match readFraction rest with
    | some (fs, rest) =>
      let m := sign (digitsValue (ds ++ fs))
      let places : Int := fs.length
      match readExponent rest with
      | some (e, rest) => .ok (.float ⟨m, e - places⟩, rest)
      | none => .ok (.float ⟨m, -places⟩, rest)
    | none =>
      match readExponent rest with
      | some (e, rest) => .ok (.float ⟨sign (digitsValue ds), e⟩, rest)
      | none => .ok (.int (sign (digitsValue ds)), rest)

/-! ## 2. Strings -/

/-- The value of a hexadecimal digit. -/
def hexValue? (c : Char) : Option Nat :=
  if '0' ≤ c ∧ c ≤ '9' then some (c.toNat - 48)
  else if 'a' ≤ c ∧ c ≤ 'f' then some (c.toNat - 87)
  else if 'A' ≤ c ∧ c ≤ 'F' then some (c.toNat - 55)
  else none

/-- The number that four hexadecimal digits stand for. -/
def hexUnit? (a b c d : Char) : Option Nat := do
  let a ← hexValue? a
  let b ← hexValue? b
  let c ← hexValue? c
  let d ← hexValue? d
  return ((a * 16 + b) * 16 + c) * 16 + d

/-- What a backslash and this character stand for. -/
def escape? : Char → Option Char
  | '"' => some '"'
  | '\\' => some '\\'
  | '/' => some '/'
  | 'b' => some '\x08'
  | 'f' => some '\x0c'
  | 'n' => some '\n'
  | 'r' => some '\r'
  | 't' => some '\t'
  | _ => none

/-- A reading with a unit more in front. -/
def consUnit (n : Nat) : Reading (List Nat) → Reading (List Nat)
  | .ok (ns, rest) => .ok (n :: ns, rest)
  | .error stop => .error stop

/-- The units of a string up to its closing quotation mark: code points, and the halves of pairs
that escapes bring in. -/
def readUnits (opening : Text) : Text → Reading (List Nat)
  | [] => .error opening
  | c :: cs =>
    if c = '"' then .ok ([], cs)
    else if c = '\\' then
      match cs with
      | [] => .error opening
      | 'u' :: h₁ :: h₂ :: h₃ :: h₄ :: rest =>
        match rest, hexUnit? h₁ h₂ h₃ h₄ with
        | _ :: _, some n => consUnit n (readUnits opening rest)
        | _, _ => .error cs
      | 'u' :: _ => .error cs
      | e :: rest =>
        match escape? e with
        | some x => consUnit x.toNat (readUnits opening rest)
        | none => .error (c :: cs)
    else if c.toNat < 0x20 then .error (c :: cs)
    else consUnit c.toNat (readUnits opening cs)

/-- Whether a unit is half of a pair. -/
def isHalf (n : Nat) : Bool := 0xD800 ≤ n && n ≤ 0xDFFF

/-- The characters of a sequence of units: two halves of a pair become one character.  None if half
of a pair stands alone. -/
def joinUnits? : List Nat → Option Text
  | [] => some []
  | [n] => if isHalf n then none else some [Char.ofNat n]
  | n :: m :: ns =>
    if 0xD800 ≤ n ∧ n ≤ 0xDBFF ∧ 0xDC00 ≤ m ∧ m ≤ 0xDFFF then
      (joinUnits? ns).map (Char.ofNat (0x10000 + (n - 0xD800) * 0x400 + (m - 0xDC00)) :: ·)
    else if isHalf n then none
    else (joinUnits? (m :: ns)).map (Char.ofNat n :: ·)

/-- A string, from its opening quotation mark on. -/
def readString (opening : Text) : Reading String :=
  match readUnits opening (opening.drop 1) with
  | .error stop => .error stop
  | .ok (ns, rest) =>
    match joinUnits? ns with
    | some t => .ok (String.ofList t, rest)
    | none => .error opening

/-! ## 3. Values -/

/-- The names that are values, each with its value. -/
def constants : List (Text × Value) :=
  [("null".toList, .null), ("true".toList, .bool true), ("false".toList, .bool false),
    ("NaN".toList, .nonFinite), ("Infinity".toList, .nonFinite), ("-Infinity".toList, .nonFinite)]

/-- A name that is a value, or else a number. -/
def readPlain (t : Text) : Reading Value :=
  match constants.findSome? fun (name, v) => (Text.afterStart? name t).map (v, ·) with
  | some found => .ok found
  | none => readNumber t

mutual

/-- A value.  The fuel bounds the number of parts still to be read. -/
def readValue : (fuel : Nat) → Text → Reading Value
  | 0, t => .error t
  | fuel + 1, t =>
    match t with
    | '"' :: _ =>
      match readString t with
      | .ok (s, rest) => .ok (.string s, rest)
      | .error stop => .error stop
    | '[' :: cs =>
      match skipSpace cs with
      | ']' :: rest => .ok (.list [], rest)
      | cs =>
        match readItems fuel cs with
        | .ok (vs, rest) => .ok (.list vs, rest)
        | .error stop => .error stop
    | '{' :: cs =>
      match skipSpace cs with
      | '}' :: rest => .ok (.object [], rest)
      | cs =>
        match readFields fuel cs with
        | .ok (fs, rest) => .ok (.object fs, rest)
        | .error stop => .error stop
    | t => readPlain t

/-- The items of a list, from the first on, and its closing bracket. -/
def readItems : (fuel : Nat) → Text → Reading (List Value)
  | 0, t => .error t
  | fuel + 1, t =>
    match readValue fuel t with
    | .error stop => .error stop
    | .ok (v, rest) =>
      match skipSpace rest with
      | ']' :: rest => .ok ([v], rest)
      | ',' :: rest =>
        match readItems fuel (skipSpace rest) with
        | .ok (vs, rest) => .ok (v :: vs, rest)
        | .error stop => .error stop
      | stop => .error stop

/-- The fields of an object, from the first on, and its closing brace. -/
def readFields : (fuel : Nat) → Text → Reading (List (String × Value))
  | 0, t => .error t
  | fuel + 1, t =>
    match t with
    | '"' :: _ =>
      match readString t with
      | .error stop => .error stop
      | .ok (name, rest) =>
        match skipSpace rest with
        | ':' :: rest =>
          match readValue fuel (skipSpace rest) with
          | .error stop => .error stop
          | .ok (v, rest) =>
            match skipSpace rest with
            | '}' :: rest => .ok ([(name, v)], rest)
            | ',' :: rest =>
              match readFields fuel (skipSpace rest) with
              | .ok (fs, rest) => .ok ((name, v) :: fs, rest)
              | .error stop => .error stop
            | stop => .error stop
        | stop => .error stop
    | stop => .error stop

end

/-- The value that a text holds, or the offset at which reading it stopped. -/
def parse (t : Text) : Except Nat Value :=
  match readValue (2 * t.length + 2) (skipSpace t) with
  | .error stop => .error (t.length - stop.length)
  | .ok (v, rest) =>
    match skipSpace rest with
    | [] => .ok v
    | stop => .error (t.length - stop.length)

end Json
end HypnoScript
