/-
# Source files

The files that a command is told to work on.  A folder stands for the source files below it; a file
has to be a source file itself.  All of them are read before anything is done, path after path, and
the first obstacle ends the command: a file that cannot be worked on, or a path that the operating
system does not look up.
-/
import HypnoScript.Command.Outcome
import HypnoScript.Text.Utf8

namespace HypnoScript
namespace Command

/-- A source file that has been read. -/
structure Source where
  path : Path
  location : Location
  text : Text

/-- Why a file cannot be worked on. -/
inductive SourceFailure where
  | noSuchFile (path : Path)
  | notSource (path : Path)
  | unreadable (path : Path) (reason : String)
  deriving DecidableEq, Repr

/-- Why, in words. -/
def SourceFailure.message : SourceFailure → Markup
  | .noSuchFile p => [(some .red, "No such file:".toList), (none, (" " ++ p.toString).toList)]
  | .notSource p =>
    [(some .red, "Not a HypnoScript file:".toList), (none, (" " ++ p.toString).toList)]
  | .unreadable p reason =>
    [(some .red, ("Cannot read " ++ p.toString ++ ":").toList), (none, (" " ++ reason).toList)]

/-- What ends the reading of files. -/
inductive Obstacle where
  /-- A file cannot be worked on. -/
  | failure (f : SourceFailure)
  /-- A path cannot be looked up. -/
  | crash (c : Crash)
  deriving DecidableEq, Repr

/-- What is said when there is nothing to work on. -/
def noSources : Markup := [(some .yellow, "No HypnoScript files found.".toList)]

/-- The text of a file: line endings of all kinds are newlines. -/
def textOf (octets : List UInt8) : Except Text.Utf8.Failure Text :=
  match Text.Utf8.decode octets with
  | .ok t => .ok t.unifyNewlines
  | .error e => .error e

/-- What ends the search below a folder that a path leads to: everything in it is looked up. -/
def barredBelow? (t : FileTree) (p : Path) (l : Location) : Option Crash :=
  (t.listed l).findSome? fun names =>
    (t.barred (p.below names)).map (.lookup (p.below names))

/-- The files that a path stands for, with the location of each that has one. -/
def expand (t : FileTree) (folder : Location) (p : Path) :
    Except Crash (List (Path × Option Location)) :=
  match t.barred p with
  | some e => .error (.lookup p e)
  | none =>
    match t.resolve folder p with
    | none => .ok [(p, none)]
    | some l =>
      if t.isFolder l then
        match barredBelow? t p l with
        | some c => .error c
        | none =>
          .ok <| ((t.below l).map fun names => (p.below names, some (l ++ names))).filter
            (·.1.isSource)
      else .ok [(p, some l)]

/-- Reads a file. -/
def readSource (t : FileTree) : Path × Option Location → Except SourceFailure Source
  | (p, none) => .error (.noSuchFile p)
  | (p, some l) =>
    match t.read? l with
    | none => .error (.noSuchFile p)
    | some octets =>
      if p.isSource then
        match t.locked p with
        | some e => .error (.unreadable p (e.message p))
        | none =>
          match textOf octets with
          | .ok text => .ok ⟨p, l, text⟩
          | .error e => .error (.unreadable p e.message)
      else .error (.notSource p)

/-- Reads the files that a path stands for. -/
def readPath (t : FileTree) (folder : Location) (p : Path) : Except Obstacle (List Source) :=
  match expand t folder p with
  | .error c => .error (.crash c)
  | .ok entries =>
    match entries.mapM (readSource t) with
    | .error f => .error (.failure f)
    | .ok sources => .ok sources

/-- Reads the files that some paths stand for. -/
def readSources (t : FileTree) (folder : Location) (paths : List Path) :
    Except Obstacle (List Source) :=
  (paths.mapM (readPath t folder)).map List.flatten

end Command
end HypnoScript
