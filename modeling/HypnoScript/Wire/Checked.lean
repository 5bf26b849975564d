/-
# Checking loosely typed values

Values that come from outside are checked field by field, and every fault is reported, in the order
of the fields.  A fault has a kind and the path that leads to the faulty value: field names and
list indexes.

The checks of plain values are lenient where no meaning is lost: a whole number may come as a
boolean, as a fraction that is whole, or as the text of a decimal integer; a boolean as one of a few
words.
-/
import HypnoScript.Json.Value
import HypnoScript.Text.Basic

namespace HypnoScript
namespace Wire

open Json (Value)

/-! ## 1. Faults -/

/-- A step on the path to a value. -/
inductive Step where
  | field (name : String)
  | index (n : Nat)
  deriving DecidableEq, Repr

/-- What can be wrong with a value. -/
inductive FaultKind where
  /-- A field that has to be there is not. -/
  | missing
  /-- Something else than an object. -/
  | notObject
  /-- Something else than an object, as the body of a request. -/
  | notFields
  /-- A text that is no value at all. -/
  | malformed
  /-- Something else than a list. -/
  | notList
  /-- Something else than a list, where the list is a fixed sequence of words. -/
  | notSequence
  /-- Something else than a string. -/
  | notString
  /-- Something that stands for no whole number. -/
  | notInt
  /-- A string that is no decimal integer. -/
  | intText
  /-- A fraction that is not whole. -/
  | intFraction
  /-- A whole fraction too large for an exact number. -/
  | intTooLarge
  /-- An infinity, or no number. -/
  | notFinite
  /-- A number below zero. -/
  | negative
  /-- Something that stands for no boolean. -/
  | notBool
  /-- A string or a number that is no boolean word. -/
  | boolWord
  /-- None of the listed values. -/
  | notListed
  /-- A value whose parts are right but do not go together. -/
  | inconsistent (message : String)
  deriving DecidableEq, Repr

/-- The name of a kind of fault. -/
def FaultKind.name : FaultKind → String
  | .missing => "missing"
  | .notObject => "model_type"
  | .notFields => "model_attributes_type"
  | .malformed => "json_invalid"
  | .notList => "list_type"
  | .notSequence => "tuple_type"
  | .notString => "string_type"
  | .notInt => "int_type"
  | .intText => "int_parsing"
  | .intFraction => "int_from_float"
  | .intTooLarge => "int_parsing_size"
  | .notFinite => "finite_number"
  | .negative => "greater_than_equal"
  | .notBool => "bool_type"
  | .boolWord => "bool_parsing"
  | .notListed => "enum"
  | .inconsistent _ => "value_error"

/-- A fault, with the path to the faulty value. -/
structure Fault where
  kind : FaultKind
  path : List Step
  deriving DecidableEq, Repr

/-- The wire form of a step. -/
def Step.toValue : Step → Value
  | .field name => .string name
  | .index n => .int n

/-- The wire form of a fault. -/
def Fault.toValue (f : Fault) : Value :=
  .object ([("type", .string f.kind.name), ("loc", .list (f.path.map Step.toValue))] ++
    match f.kind with
    | .inconsistent message => [("msg", .string ("Value error, " ++ message))]
    | _ => [])

/-- A value that has passed its checks, or the faults found. -/
def Checked (α : Type) := Except (List Fault) α

namespace Checked

variable {α β : Type}

/-- A value without faults. -/
def ok (a : α) : Checked α := Except.ok a

/-- One fault, at the value itself. -/
def fault (kind : FaultKind) : Checked α := Except.error [⟨kind, []⟩]

/-- Both are checked, and the faults of both are reported. -/
def seq (f : Checked (α → β)) (a : Checked α) : Checked β :=
  match f, a with
  | .ok f, .ok a => .ok (f a)
  | .ok _, .error es => .error es
  | .error es, .ok _ => .error es
  | .error es, .error es' => .error (es ++ es')

instance : Applicative Checked where
  pure := ok
  seq f a := seq f (a ())

/-- A further check, made only when there was no fault. -/
def andThen (a : Checked α) (f : α → Checked β) : Checked β :=
  match a with
  | .ok a => f a
  | .error es => .error es

/-- The faults of a part are reported with the step that leads to the part. -/
def under (step : Step) (a : Checked α) : Checked α :=
  match a with
  | .ok a => .ok a
  | .error es => .error (es.map fun e => { e with path := step :: e.path })

end Checked

/-! ## 2. Objects and lists -/

variable {α : Type}

/-- The fields of an object. -/
def fieldsOf : Value → Checked (List (String × Value))
  | .object fields => .ok fields
  | _ => .fault .notObject

/-- A field that has to be there. -/
def required (read : Value → Checked α) (fields : List (String × Value)) (name : String) :
    Checked α :=
  Checked.under (.field name) <|
    match Json.field? fields name with
    | some v => read v
    | none => .fault .missing

/-- A field that may be left out. -/
def optional (read : Value → Checked α) (default : α) (fields : List (String × Value))
    (name : String) : Checked α :=
  match Json.field? fields name with
  | some v => Checked.under (.field name) (read v)
  | none => .ok default

/-- The items of a list, the first with index `n`. -/
def itemsFrom (read : Value → Checked α) (n : Nat) : List Value → Checked (List α)
  | [] => .ok []
  | v :: vs => List.cons <$> Checked.under (.index n) (read v) <*> itemsFrom read (n + 1) vs

/-- The items of a list; `kind` is the fault of a value that is no list. -/
def listOf (read : Value → Checked α) (kind : FaultKind := .notList) : Value → Checked (List α)
  | .list vs => itemsFrom read 0 vs
  | _ => .fault kind

/-- A value that may be null. -/
def nullable (read : Value → Checked α) : Value → Checked (Option α)
  | .null => .ok none
  | v => some <$> read v

/-! ## 3. Plain values -/

/-- A string. -/
def string : Value → Checked String
  | .string s => .ok s
  | _ => .fault .notString

/-- A string, as a text. -/
def text (v : Value) : Checked Text := String.toList <$> string v

/-- The text from its first digit other than zero on, so that a sign or a point is left at the
start; the last character if there is nothing but zeros. -/
def dropZeros : (last : Char) → Text → Option Text
  | last, [] => some [last]
  | last, c :: cs =>
    if c = '0' ∨ c = '_' then dropZeros c cs
    else if c = '-' ∨ ('1' ≤ c ∧ c ≤ '9') then some (c :: cs)
    else if c = '.' then some (last :: c :: cs)
    else none

/-- The text without leading zeros; nothing when it does not start like a number. -/
def withoutZeros : Text → Option Text
  | '0' :: cs => dropZeros '0' cs
  | c :: cs => if c = '-' ∨ ('1' ≤ c ∧ c ≤ '9') then some (c :: cs) else none
  | [] => none

/-- The text without a fraction that consists of zeros. -/
def withoutFraction (t : Text) : Text :=
  let fraction := t.dropWhile (· != '.')
  if (fraction.drop 1).all (· == '0') then t.takeWhile (· != '.') else t

/-- Whether two underscores stand side by side. -/
def doubleUnderscore : Text → Bool
  | '_' :: '_' :: _ => true
  | _ :: cs => doubleUnderscore cs
  | [] => false

/-- The text without underscores, where each of them separates two other characters. -/
def withoutUnderscores (t : Text) : Text :=
  if t.head? = some '_' ∨ t.getLast? = some '_' ∨ doubleUnderscore t then t
  else t.filter (· != '_')

/-- The number that a run of digits stands for: zero, or digits that do not start with it. -/
def plainNat? (t : Text) : Option Nat :=
  if t = ['0'] then some 0
  else if t.isEmpty ∨ t.head? = some '0' ∨ !t.all Char.isDigit then none
  else some (t.foldl (fun n c => n * 10 + (c.toNat - 48)) 0)

/-- The number that an optional minus sign and a run of digits stand for. -/
def plainInt? : Text → Option Int
  | '-' :: cs => (plainNat? cs).map fun n => -(n : Int)
  | cs => (plainNat? cs).map fun n => (n : Int)

/-- The number that the text of a decimal integer stands for.  Blanks around it, leading zeros,
single underscores between digits and a fraction of zeros do no harm. -/
def intOfText? (t : Text) : Option Int :=
  match plainInt? t with
  | some n => some n
  | none => (withoutZeros t.trim).bind fun t => plainInt? (withoutUnderscores (withoutFraction t))

/-- A whole number. -/
def int : Value → Checked Int
  | .int n => .ok n
  | .bool b => .ok (if b then 1 else 0)
  | .float d =>
    match d.nearest with
    | .infinite => .fault .notFinite
    | .fractional => .fault .intFraction
    | .whole n => if n.natAbs < Nat.pow 2 63 then .ok n else .fault .intTooLarge
  | .nonFinite => .fault .notFinite
  | .string s =>
    match intOfText? s.toList with
    | some n => .ok n
    | none => .fault .intText
  | _ => .fault .notInt

/-- A whole number that is not below zero. -/
def natural (v : Value) : Checked Nat :=
  (int v).andThen fun n => if 0 ≤ n then .ok n.toNat else .fault .negative

/-- The words that stand for a boolean. -/
def boolWords : List (String × Bool) :=
  [("0", false), ("off", false), ("f", false), ("false", false), ("n", false), ("no", false),
    ("1", true), ("on", true), ("t", true), ("true", true), ("y", true), ("yes", true)]

/-- A boolean. -/
def bool : Value → Checked Bool
  | .bool b => .ok b
  | .int n =>
    if n = 0 then .ok false else if n = 1 then .ok true
    else if n.natAbs < Nat.pow 2 63 then .fault .boolWord else .fault .notBool
  | .float d =>
    match d.nearest with
    | .whole n =>
      if n = 0 then .ok false else if n = 1 then .ok true
      else if n.natAbs < Nat.pow 2 63 then .fault .boolWord else .fault .notBool
    | _ => .fault .notBool
  | .string s =>
    match boolWords.lookup (String.ofList (s.toList.map Char.toLower)) with
    | some b => .ok b
    | none => .fault .boolWord
  | _ => .fault .notBool

/-- One of the values that stand for a name in a list. -/
def listed (table : List (String × α)) : Value → Checked α
  | .string s =>
    match table.lookup s with
    | some a => .ok a
    | none => .fault .notListed
  | _ => .fault .notListed

end Wire
end HypnoScript
