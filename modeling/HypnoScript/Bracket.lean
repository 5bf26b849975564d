/-
# Brackets and their partners

Braces, parentheses and brackets are matched with a stack.  A closer on a non-empty stack takes the
top opener off, whether it is of its kind or not; if it is not, the closer is faulty, and the opener
is not put back.  A closer on an empty stack is faulty too.  The openers left in the end are faulty,
and are reported last.
-/
import HypnoScript.Document
import HypnoScript.Diagnostic
import HypnoScript.Message

namespace HypnoScript
namespace Bracket

/-- The closing partner of an opening bracket. -/
def closer? : Char → Option Char
  | '{' => some '}'
  | '(' => some ')'
  | '[' => some ']'
  | _ => none

/-- The opening brackets. -/
def isOpener (c : Char) : Bool := c == '{' || c == '(' || c == '['

/-- The closing brackets. -/
def isCloser (c : Char) : Bool := c == '}' || c == ')' || c == ']'

/-- An opening bracket that is still open. -/
structure Frame where
  opener : Char
  offset : Nat
  deriving DecidableEq, Repr

/-- The offsets of the faulty brackets in a text that starts at `offset`, below the open brackets
of the stack. -/
def faultsFrom (stack : List Frame) (offset : Nat) : Text → List Nat
  | [] => stack.reverse.map Frame.offset
  | c :: cs =>
    if isOpener c then faultsFrom (⟨c, offset⟩ :: stack) (offset + 1) cs
    else if isCloser c then
      match stack with
      | [] => offset :: faultsFrom [] (offset + 1) cs
      | f :: stack =>
        if closer? f.opener = some c then faultsFrom stack (offset + 1) cs
        else offset :: faultsFrom stack (offset + 1) cs
    else faultsFrom stack (offset + 1) cs

/-- The offsets of the faulty brackets: the closers in their order, then the openers in theirs. -/
def faults (code : Text) : List Nat := faultsFrom [] 0 code

/-- A diagnostic for every faulty bracket of the code. -/
def check (w : Wording) (d : Document) : List Diagnostic :=
  (faults d.code).map fun (offset : Nat) =>
    { range := d.spanAt offset 1
      message := w .unbalancedBracket
      severity := .error
      rule := some .unbalancedBracket }

end Bracket
end HypnoScript
