/-
# What a command leads to

An exit code, an output and lines for the error stream.  The output is kept in parts that can be
shown in more than one way: a table of diagnostics keeps its title and its rows, and a listing that
is to be read by a program keeps its diagnostics.

Everything that is printed for people passes through the terminal, which can refuse it.  A command
breaks off then, as it does when the operating system does not look a path up, and so its outcome is
the crash: an exit code of one, and what went wrong.
-/
import HypnoScript.FileTree.Basic
import HypnoScript.Layout
import HypnoScript.Outline
import HypnoScript.QuickFix
import HypnoScript.Settings
import HypnoScript.Terminal

namespace HypnoScript
namespace Command

/-- What a command breaks off with. -/
inductive Crash where
  /-- The terminal refuses a text with marks. -/
  | marks (message : String)
  /-- The operating system does not look a path up. -/
  | lookup (path : Path) (failure : SystemFailure)
  /-- The settings are wrong. -/
  | settings (e : Settings.UnknownLevel)
  /-- The indentation is too wide. -/
  | noRoom (e : Layout.NoRoom)
  /-- A text cannot be fixed. -/
  | fix (e : QuickFix.Failure)
  deriving DecidableEq, Repr

/-- What the terminal shows of a text with marks. -/
def shown (c : Terminal) (m : Markup) : Except Crash Text :=
  match c.render m.source with
  | .ok t => .ok t
  | .error message => .error (.marks message)

/-- A part of the output, in which the texts are with marks or as they are shown. -/
inductive Line (α : Type) where
  /-- A line of text behind a margin. -/
  | text (margin : String) (t : α)
  /-- A table with a title, and with a line, a column, a severity, a code and a message in each
  row. -/
  | table (title : α) (rows : List (List α))
  deriving DecidableEq, Repr

/-- What the terminal shows of a part of the output. -/
def Line.shown (c : Terminal) : Line Markup → Except Crash (Line Text)
  | .text margin m => (Command.shown c m).map (.text margin)
  | .table title rows => do
    let rows ← rows.mapM fun cells => cells.mapM (Command.shown c)
    return .table (← Command.shown c title) rows

/-- The output of a command. -/
inductive Output where
  /-- Help, or how the command is to be used. -/
  | usage
  /-- Lines and tables. -/
  | lines (ls : List (Line Text))
  /-- Diagnostics for a program to read, by document. -/
  | listing (entries : List (String × List Diagnostic))
  /-- A text as it is. -/
  | verbatim (t : Text)
  /-- The command has broken off. -/
  | crash (c : Crash)
  /-- Nothing, because a server goes on from here. -/
  | server

/-- What a command leads to. -/
structure Outcome where
  exitCode : Nat
  output : Output
  errors : List Text := []

/-- The outcome of a command that breaks off. -/
def Outcome.crashed (c : Crash) : Outcome := ⟨1, .crash c, []⟩

/-- The outcome of a command that ends with this exit code once its lines are printed. -/
def Outcome.printed (exitCode : Nat) : Except Crash (List (Line Text)) → Outcome
  | .ok ls => ⟨exitCode, .lines ls, []⟩
  | .error c => .crashed c

/-! ## 1. Tables of diagnostics -/

/-- The style that a severity is shown in. -/
def styleOf : Severity → Style
  | .error => .red
  | .warning => .yellow
  | .information => .blue
  | .hint => .dim

/-- The row of a diagnostic, with lines and columns counted from one. -/
def row (g : Diagnostic) : List Markup :=
  [.plain (toString (g.range.start.line + 1)), .plain (toString (g.range.start.column + 1)),
    [(some (styleOf g.severity), g.severity.name.toList)],
    .plain ((g.rule.map Rule.code).getD ""), .plain g.message]

/-- The line for a document in which nothing is wrong. -/
def noProblems (uri : String) : Markup := [(some .green, (uri ++ ": no problems").toList)]

/-- What is shown of the diagnostics of a document. -/
def reportOf (uri : String) (gs : List Diagnostic) : Line Markup :=
  if gs.isEmpty then .text "" (noProblems uri) else .table (.plain uri) (gs.map row)

/-- The number of diagnostics of a severity. -/
def countOf (s : Severity) (gs : List Diagnostic) : Nat := gs.countP (·.severity == s)

/-- How many diagnostics there are. -/
def summary (gs : List Diagnostic) : Markup :=
  let errors := countOf .error gs
  let warnings := countOf .warning gs
  let hints := countOf .hint gs
  .plain s!"{errors} error(s), {warnings} warning(s), {hints} hint(s)"

/-! ## 2. Trees of symbols -/

/-- A symbol in a tree, with its lines counted from one. -/
def labelOf (s : Symbol) : Markup :=
  let lines := s!"{s.range.start.line + 1}-{s.range.stop.line + 1}"
  [(some .bold, s.name), (none, [' ']), (some .dim, s!"{s.kind.name}, lines {lines}".toList)]

mutual

/-- The lines of a symbol and of what is below it, behind a margin. -/
def symbolLines (margin : String) (last : Bool) : Symbol → List (Line Markup)
  | s@(.mk _ _ _ _ _ children) =>
    .text (margin ++ if last then "└── " else "├── ") (labelOf s) ::
      treeLines (margin ++ if last then "    " else "│   ") children

/-- The lines of some symbols that stand side by side. -/
def treeLines (margin : String) : List Symbol → List (Line Markup)
  | [] => []
  | s :: ss => symbolLines margin ss.isEmpty s ++ treeLines margin ss

end

/-- The tree of the symbols of a file. -/
def treeOf (path : Path) (ss : List Symbol) : List (Line Markup) :=
  .text "" (.plain path.toString) :: treeLines "" ss

end Command
end HypnoScript
