/-
# The command line

Reads the environment and the files that the arguments name, carries out the command, writes the
files that it changed and prints the outcome.  Nothing is decided here.
-/
import HypnoScript.Command.Run
import HypnoScript.Json.Printer
import HypnoScript.Terminal.Marks

namespace HypnoScript
namespace Console

open Command

/-- The location of a path from the root, without the two points in it resolved. -/
def absolute (folder : Location) (p : Path) : List String :=
  (if p.anchor.isEmpty then folder else []) ++ p.names

/-- A location as the operating system writes it. -/
def osPath (l : Location) : String := "/" ++ "/".intercalate l

/-- The names that lead to a file when each pair of points takes the last one back. -/
def simplified (names : List String) : Location :=
  names.foldl (fun l n => if n = ".." then l.dropLast else l ++ [n]) []

/-- Whether the operating system has a folder at a location. -/
def folderAt (l : Location) : IO Bool := do
  try
    let p ← IO.FS.realPath (osPath l)
    p.isDir
  catch _ => return false

/-- The octets of the file at a location, or why it cannot be opened; nothing if there is none. -/
def octetsAt (l : Location) : IO (Option (Except SystemFailure (List UInt8))) := do
  try
    let bytes ← IO.FS.readBinFile (osPath l)
    return some (.ok bytes.toList)
  catch
    | .permissionDenied _ code _ =>
      return some (.error ⟨SystemFailure.notPermitted, code.toNat, "Permission denied"⟩)
    | _ => return none

/-- What is seen of two parts of the files together. -/
def together (t u : FileTree) : FileTree where
  folders := t.folders ++ u.folders
  files := t.files ++ u.files
  barred p := (t.barred p).or (u.barred p)
  locked p := (t.locked p).or (u.locked p)

/-- The folders and files at and below the location of a path. -/
partial def snapshotBelow (p : Path) (l : Location) : IO FileTree := do
  if ← folderAt l then
    let root ← IO.FS.realPath (osPath l)
    let entries ← root.readDir
    let mut tree : FileTree := { folders := [l] }
    for e in entries do
      tree := together tree (← snapshotBelow (p.below [e.fileName]) (l ++ [e.fileName]))
    return tree
  else
    match ← octetsAt l with
    | some (.ok octets) => return { files := [(l, octets)] }
    | some (.error e) =>
      return { files := [(l, [])], locked := fun q => if q = p then some e else none }
    | none => return {}

/-- The folders that a path leads through, and what lies at and below its end. -/
def snapshotOf (folder : Location) (p : Path) : IO FileTree := do
  let names := absolute folder p
  let mut folders : List Location := []
  for n in List.range names.length do
    let l := simplified (names.take n)
    if ← folderAt l then folders := l :: folders
  return together { folders } (← snapshotBelow p (simplified names))

/-- The paths that a command names. -/
def pathsOf : Invocation → List Path
  | .named _ (.run c) => c.paths
  | _ => []

/-- What the words of a command line see of the files. -/
def snapshot (folder : Location) (words : List String) : IO FileTree := do
  let mut tree : FileTree := {}
  for p in pathsOf (Invocation.ofWords words) do
    tree := together tree (← snapshotOf folder p)
  return { FileTree.ofEntries tree.folders tree.files with locked := tree.locked }.withLimits folder

/-- Writes the files that have changed. -/
def writeChanges (before after : FileTree) : IO Unit := do
  for (l, octets) in after.files do
    if before.read? l != some octets then
      IO.FS.writeBinFile (osPath l) (ByteArray.mk octets.toArray)

/-- How the commands are used. -/
def usage : String :=
  "\n".intercalate
    ["Usage: hypnoscript [-v] COMMAND ...", "",
      "  check PATHS... [--locale NAME] [--json]   report problems",
      "  fix PATHS... [--dry-run]                  add terminators and the wrapper",
      "  format PATHS... [--check] [--stdout] [--indent-width N]",
      "  outline PATH                              show the named blocks"]

/-- A part of the output in lines. -/
def linesOf : Line Text → List String
  | .text margin t => [margin ++ String.ofList t]
  | .table title rows =>
    String.ofList title ::
      rows.map fun cells => "  " ++ "  ".intercalate (cells.map String.ofList)

/-- What is said when a command breaks off. -/
def crashMessage : Crash → String
  | .marks message => message
  | .lookup p e => e.message p
  | .settings e => e.message
  | .noRoom e => e.message
  | .fix (.noSuchLine e) => s!"There is no line {e.line}"
  | .fix (.overlap o) => o.message

/-- Prints the output of a command. -/
def printOutput : Output → IO Unit
  | .usage => IO.println usage
  | .lines ls => ls.forM fun l => (linesOf l).forM IO.println
  | .listing entries =>
    IO.println <| Json.pretty <| .object <|
      entries.map fun e => (e.1, .list (e.2.map Diagnostic.toValue))
  | .verbatim t => IO.print (String.ofList t)
  | .crash c => IO.eprintln (crashMessage c)
  | .server => IO.eprintln "This build holds no server."

end Console
end HypnoScript

open HypnoScript in
/-- Runs the command that the arguments ask for. -/
def main (arguments : List String) : IO UInt32 := do
  let locale ← IO.getEnv Settings.localeVariable
  let logLevel ← IO.getEnv Settings.logLevelVariable
  let settings : Settings := ⟨locale, logLevel⟩
  let folder := (Path.ofString (← IO.currentDir).toString).names
  let tree ← Console.snapshot folder arguments
  let (outcome, after) := Command.runWords ⟨settings, .standard, tree, folder⟩ arguments
  Console.writeChanges tree after
  Console.printOutput outcome.output
  outcome.errors.forM fun t => IO.eprintln (String.ofList t)
  return outcome.exitCode.toUInt32
