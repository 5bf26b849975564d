/-
# Analysis

A program stands between two words, each of which occurs exactly once in the code: the opening
wrapper, and behind it the closing one.  A line that starts with the word of a statement has to end
with the terminator, unless it opens or closes a block or leaves a group open, so that the statement
goes on below; every line is judged on its own, and comments and blank lines are never reported.

These two checks, the check of the brackets and the check for unused variables are made one after
the other.  Nothing is merged or left out between them.
-/
import HypnoScript.Bracket
import HypnoScript.Declaration
import HypnoScript.LineShape

namespace HypnoScript

/-! ## 1. The wrapper -/

namespace Wrapper

/-- An error about the wrapper. -/
def report (w : Wording) (rule : Rule) (message : Message) (range : Span) : Diagnostic :=
  { range, message := w message, severity := .error, rule := some rule }

/-- What is wrong with the wrapper: each word that is missing, then the second and further
occurrences of each, then the wrong order of the first ones. -/
def check (dialect : Dialect) (w : Wording) (d : Document) : List Diagnostic :=
  let opens := Text.wordOffsets dialect.openWrapper d.code
  let closes := Text.wordOffsets dialect.closeWrapper d.code
  let openAt (offset : Nat) := d.spanAt offset dialect.openWrapper.length
  let closeAt (offset : Nat) := d.spanAt offset dialect.closeWrapper.length
  (if opens.isEmpty then
      [report w .noOpenWrapper .noOpenWrapper (Span.onLine 0 0 0)] else []) ++
    (if closes.isEmpty then
      [report w .noCloseWrapper .noCloseWrapper (Span.onLine d.lastLine 0 0)] else []) ++
    (opens.drop 1).map (fun o => report w .duplicateOpenWrapper .duplicateOpenWrapper (openAt o)) ++
    (closes.drop 1).map
      (fun o => report w .duplicateCloseWrapper .duplicateCloseWrapper (closeAt o)) ++
    match opens, closes with
    | o :: _, c :: _ => if c < o then [report w .wrapperOrder .wrapperOrder (openAt o)] else []
    | _, _ => []

end Wrapper

/-! ## 2. The ends of statements -/

namespace Terminator

/-- Whether a line of this shape lacks its terminator. -/
def isMissing (dialect : Dialect) (s : LineShape) : Bool :=
  !(s.isBlank || s.isComment || s.code.isEmpty || s.isBlockBoundary || s.continues) &&
    s.startsWithWord dialect.statementKeywords && !Text.endsWith s.code dialect.terminator

/-- The numbers of the lines that lack their terminator, given the lines from number `n` on and
their masked copies. -/
def missingFrom (dialect : Dialect) (n : Nat) : List Text → List Text → List Nat
  | line :: lines, code :: codes =>
    let rest := missingFrom dialect (n + 1) lines codes
    if isMissing dialect (LineShape.of line code) then n :: rest else rest
  | _, _ => []

/-- The numbers of the lines that lack their terminator. -/
def missingLines (dialect : Dialect) (d : Document) : List Nat :=
  missingFrom dialect 0 d.lines d.codeLines

/-- A diagnostic at the end of every line that lacks its terminator. -/
def check (dialect : Dialect) (w : Wording) (d : Document) : List Diagnostic :=
  (missingLines dialect d).map fun n =>
    { range := d.endOfLine n
      message := w .missingTerminator
      severity := .warning
      rule := some .missingTerminator }

end Terminator

/-! ## 3. All checks -/

/-- The diagnostics of a document. -/
def Document.diagnostics (dialect : Dialect) (w : Wording) (d : Document) : List Diagnostic :=
  Wrapper.check dialect w d ++ Bracket.check w d ++ Terminator.check dialect w d ++
    Declaration.check dialect w d

/-- The diagnostics of a text. -/
def analyze (dialect : Dialect) (w : Wording) (t : Text) : List Diagnostic :=
  (Document.ofText t).diagnostics dialect w

end HypnoScript
