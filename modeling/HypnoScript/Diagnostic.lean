/-
# Diagnostics

What the checks report: a span of the text, a message, a severity and the code of the rule that the
text breaks.
-/
import HypnoScript.Position

namespace HypnoScript

/-- How grave a diagnostic is. -/
inductive Severity where
  | error
  | warning
  | information
  | hint
  deriving DecidableEq, Repr

namespace Severity

/-- The number of a severity, from the gravest on. -/
def toNat : Severity → Nat
  | .error => 1
  | .warning => 2
  | .information => 3
  | .hint => 4

/-- The severity with a number. -/
def ofInt? (n : Int) : Option Severity :=
  if n = 1 then some .error
  else if n = 2 then some .warning
  else if n = 3 then some .information
  else if n = 4 then some .hint
  else none

/-- The name of a severity. -/
def name : Severity → String
  | .error => "error"
  | .warning => "warning"
  | .information => "information"
  | .hint => "hint"

theorem ofInt?_toNat (s : Severity) : ofInt? s.toNat = some s := by cases s <;> rfl

end Severity

/-- The rules that a text can break. -/
inductive Rule where
  /-- The opening wrapper is missing. -/
  | noOpenWrapper
  /-- The closing wrapper is missing. -/
  | noCloseWrapper
  /-- The opening wrapper occurs again. -/
  | duplicateOpenWrapper
  /-- The closing wrapper occurs again. -/
  | duplicateCloseWrapper
  /-- The opening wrapper stands behind the closing one. -/
  | wrapperOrder
  /-- A brace, parenthesis or bracket has no partner of its kind. -/
  | unbalancedBracket
  /-- A statement does not end with the terminator. -/
  | missingTerminator
  /-- A variable is declared and never used. -/
  | unusedVariable
  deriving DecidableEq, Repr

namespace Rule

/-- The code of a rule. -/
def code : Rule → String
  | .noOpenWrapper => "HS_NO_FOCUS"
  | .noCloseWrapper => "HS_NO_RELAX"
  | .duplicateOpenWrapper => "HS_MULTIPLE_FOCUS"
  | .duplicateCloseWrapper => "HS_MULTIPLE_RELAX"
  | .wrapperOrder => "HS_FOCUS_ORDER"
  | .unbalancedBracket => "HS_UNBALANCED_BRACES"
  | .missingTerminator => "HS_MISSING_SEMICOLON"
  | .unusedVariable => "HS_UNUSED_VARIABLE"

/-- All rules. -/
def all : List Rule :=
  [.noOpenWrapper, .noCloseWrapper, .duplicateOpenWrapper, .duplicateCloseWrapper, .wrapperOrder,
    .unbalancedBracket, .missingTerminator, .unusedVariable]

/-- The codes, each with its rule. -/
def byCode : List (String × Rule) := all.map fun r => (r.code, r)

theorem lookup_code (r : Rule) : byCode.lookup r.code = some r := by cases r <;> decide

end Rule

/-- A finding about a stretch of text. -/
structure Diagnostic where
  range : Span
  message : String
  severity : Severity
  rule : Option Rule := none
  source : String := "hypnoscript"
  deriving DecidableEq, Repr

end HypnoScript
