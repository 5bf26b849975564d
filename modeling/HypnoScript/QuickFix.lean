/-
# Quick fixes

For most diagnostics there is an edit that removes them.

* A missing terminator is put in behind the last code of its line, in front of a comment.
* The line of an unused variable is deleted, with its newline if it is not the last one.
* A second wrapper word is deleted.
* A missing wrapper is put around the whole text.  However many diagnostics ask for it, this is one
  fix, and the last one.

Terminators and the wrapper are *preferred*: `fixDocument` makes them all at once.
-/
import HypnoScript.Analysis
import HypnoScript.Edit

namespace HypnoScript

/-- A way to remove a diagnostic. -/
structure QuickFix where
  title : String
  rule : Rule
  edits : List Edit
  preferred : Bool := false
  deriving DecidableEq, Repr

namespace QuickFix

/-- A diagnostic is about a line that the text does not have. -/
structure NoSuchLine where
  line : Nat
  deriving DecidableEq, Repr

/-- The line with a number. -/
def lineOf (lines : List Text) (n : Nat) : Except NoSuchLine Text :=
  match lines[n]? with
  | some l => .ok l
  | none => .error ⟨n⟩

/-- Puts the terminator in behind the last code of the line that the diagnostic ends on. -/
def addTerminator (dialect : Dialect) (w : Wording) (d : Document) (g : Diagnostic) :
    Except NoSuchLine QuickFix := do
  let line := g.range.stop.line
  let code ← lineOf d.codeLines line
  return {
    title := w .addTerminator
    rule := .missingTerminator
    edits := [Edit.insertAt ⟨line, code.trimRight.length⟩ dialect.terminator]
    preferred := true }

/-- The span of a line with its newline, or of the last line without one. -/
def wholeLine (d : Document) (line : Nat) : Except NoSuchLine Span :=
  if line + 1 < d.lineCount then .ok (Span.ofLines line 1 0)
  else do
    let l ← lineOf d.lines line
    return Span.onLine line 0 l.length

/-- Deletes the line that the diagnostic starts on. -/
def removeLine (w : Wording) (d : Document) (g : Diagnostic) : Except NoSuchLine QuickFix := do
  let range ← wholeLine d g.range.start.line
  return { title := w .removeUnused, rule := .unusedVariable, edits := [⟨range, []⟩] }

/-- Deletes the span of the diagnostic. -/
def removeSpan (w : Wording) (rule : Rule) (g : Diagnostic) : QuickFix :=
  { title := w .removeDuplicate, rule, edits := [⟨g.range, []⟩] }

/-- The opening wrapper and its brace, in front of the first line. -/
def openingEdit (dialect : Dialect) : Edit :=
  Edit.insertAt ⟨0, 0⟩ (dialect.openWrapper ++ " \x7b\n".toList)

/-- The closing brace and wrapper, on a line of their own at the end. -/
def closingEdit (dialect : Dialect) (d : Document) : Edit :=
  let length := d.lineLength d.lastLine
  Edit.insertAt ⟨d.lastLine, length⟩
    ((if length = 0 then [] else ['\n']) ++ "\x7d ".toList ++ dialect.closeWrapper ++ ['\n'])

/-- Puts in what is missing of the wrapper. -/
def addWrapper (dialect : Dialect) (w : Wording) (d : Document) (opening closing : Bool) :
    QuickFix :=
  { title := w .addWrapper
    rule := if opening then .noOpenWrapper else .noCloseWrapper
    edits := (if opening then [openingEdit dialect] else []) ++
      (if closing then [closingEdit dialect d] else [])
    preferred := true }

/-- The fix for one diagnostic, if there is one.  The missing wrapper is left to `addWrapper`. -/
def ofDiagnostic (dialect : Dialect) (w : Wording) (d : Document) (g : Diagnostic) :
    Except NoSuchLine (List QuickFix) :=
  match g.rule with
  | some .missingTerminator => return [← addTerminator dialect w d g]
  | some .unusedVariable => return [← removeLine w d g]
  | some .duplicateOpenWrapper => return [removeSpan w .duplicateOpenWrapper g]
  | some .duplicateCloseWrapper => return [removeSpan w .duplicateCloseWrapper g]
  | _ => return []

/-- The fixes for a list of diagnostics of a document. -/
def forDocument (dialect : Dialect) (w : Wording) (d : Document) (gs : List Diagnostic) :
    Except NoSuchLine (List QuickFix) := do
  let fixes ← gs.mapM (ofDiagnostic dialect w d)
  let opening := gs.any (·.rule == some .noOpenWrapper)
  let closing := gs.any (·.rule == some .noCloseWrapper)
  return fixes.flatten ++
    if opening || closing then [addWrapper dialect w d opening closing] else []

/-- The fixes for a list of diagnostics of a text. -/
def forText (dialect : Dialect) (w : Wording) (t : Text) (gs : List Diagnostic) :
    Except NoSuchLine (List QuickFix) :=
  forDocument dialect w (Document.ofText t) gs

/-- Why a text cannot be fixed. -/
inductive Failure where
  | noSuchLine (e : NoSuchLine)
  | overlap (o : Edit.Overlap)
  deriving DecidableEq, Repr

end QuickFix

/-- The text with the preferred fixes for its own diagnostics made. -/
def fixDocument (dialect : Dialect) (w : Wording) (t : Text) : Except QuickFix.Failure Text :=
  match QuickFix.forText dialect w t (analyze dialect w t) with
  | .error e => .error (.noSuchLine e)
  | .ok fixes =>
    match Edit.applyAll t ((fixes.filter (·.preferred)).flatMap (·.edits)) with
    | .error o => .error (.overlap o)
    | .ok t => .ok t

end HypnoScript
