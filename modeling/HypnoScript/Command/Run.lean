/-
# Carrying out commands

A command is a function of the settings, the terminal and the files: it leads to an outcome and to
the files as they are then.  Only the fix and the format command change files, and only those whose
text they change; where a file cannot be read, nothing is changed at all.

These two commands work through their files one after the other: a file is written, and then its
path is printed.  If the terminal refuses the path, the command breaks off between two files, and
the tree is what it was made until then (`Job.carryOut`).
-/
import HypnoScript.Collection
import HypnoScript.Command.Options
import HypnoScript.Command.Sources

namespace HypnoScript
namespace Command

/-- Where a command is carried out: the settings, the terminal, the files and the folder that paths
start from. -/
structure Place where
  settings : Settings
  terminal : Terminal
  tree : FileTree
  folder : Location

/-- The outcome of a command that an obstacle ends.  That a file cannot be worked on is said on the
error stream, if the terminal shows it. -/
def Obstacle.outcome (c : Terminal) : Obstacle → Outcome
  | .crash e => .crashed e
  | .failure f =>
    match shown c f.message with
    | .ok line => ⟨2, .lines [], [line]⟩
    | .error e => .crashed e

/-- Does something with the source files that some paths stand for, unless one cannot be read. -/
def withSources (p : Place) (paths : List Path) (work : List Source → Outcome × FileTree) :
    Outcome × FileTree :=
  match readSources p.tree p.folder paths with
  | .error o => (o.outcome p.terminal, p.tree)
  | .ok [] =>
    match shown p.terminal noSources with
    | .ok line =>
      let (o, t) := work []
      ({ o with errors := line :: o.errors }, t)
    | .error e => (.crashed e, p.tree)
  | .ok sources => work sources

/-! ## 1. Checking -/

/-- The diagnostics of some files, by path. -/
def collect (w : Wording) (sources : List Source) : Collection :=
  sources.foldl (fun c s => (c.publish s.path.toString Dialect.standard w s.text).2)
    Collection.empty

/-- The diagnostics in a collection, by document. -/
def entriesOf (c : Collection) : List (String × List Diagnostic) :=
  c.uris.map fun uri => (uri, c.get uri)

/-- What is printed about the documents. -/
def reportLines (entries : List (String × List Diagnostic)) : List (Line Markup) :=
  entries.map (fun e => reportOf e.1 e.2) ++ [.text "" (summary (entries.flatMap (·.2)))]

/-- The report on some files, for a program or for people; the exit code is one if there is an error
among the diagnostics. -/
def checkSources (c : Terminal) (w : Wording) (asJson : Bool) (sources : List Source) : Outcome :=
  let entries := entriesOf (collect w sources)
  let exitCode := if (entries.flatMap (·.2)).any (·.severity == .error) then 1 else 0
  if asJson then ⟨exitCode, .listing entries, []⟩
  else .printed exitCode ((reportLines entries).mapM (Line.shown c))

/-! ## 2. Changing -/

/-- What is done with files, one after the other. -/
structure Job where
  /-- The new text of a file. -/
  change : Text → Except Crash Text
  /-- What is printed about a file that gets a new text. -/
  line : Path → Markup
  /-- What is printed in the end, about the number of these files. -/
  count : Nat → Markup
  /-- Whether the new texts are written into the files. -/
  writes : Bool
  /-- Whether it is a failure that there are such files. -/
  isStrict : Bool

/-- Works through some files: what is printed about them, if nothing breaks off, and the tree as it
is then.  A file is written before anything is printed about it. -/
def Job.carryOut (c : Terminal) (j : Job) (t : FileTree) :
    List Source → Except Crash (List Text) × FileTree
  | [] => (.ok [], t)
  | s :: sources =>
    match j.change s.text with
    | .error e => (.error e, t)
    | .ok u =>
      if u = s.text then j.carryOut c t sources
      else
        let t := if j.writes then t.write s.location (Text.Utf8.encode u) else t
        match shown c (j.line s.path) with
        | .error e => (.error e, t)
        | .ok line =>
          let (lines, t) := j.carryOut c t sources
          (lines.map (line :: ·), t)

/-- The outcome of a job, and the tree behind it. -/
def Job.run (c : Terminal) (j : Job) (t : FileTree) (sources : List Source) : Outcome × FileTree :=
  match j.carryOut c t sources with
  | (.error e, t) => (.crashed e, t)
  | (.ok lines, t) =>
    (.printed (if j.isStrict && !lines.isEmpty then 1 else 0)
      ((shown c (j.count lines.length)).map fun last => (lines ++ [last]).map (.text "")), t)

/-- The line about a file that gets a new text, or would get one. -/
def fileLine (done would : String) (dry : Bool) (p : Path) : Markup :=
  [if dry then (some .yellow, would.toList) else (some .green, done.toList),
    (none, (" " ++ p.toString).toList)]

/-- The line about the number of these files. -/
def countLine (verb : String) (dry : Bool) (n : Nat) : Markup :=
  .plain (s!"{n} file(s) " ++ (if dry then "would be " else "") ++ verb)

/-- The text with the preferred fixes made. -/
def fixedText (w : Wording) (t : Text) : Except Crash Text :=
  match fixDocument Dialect.standard w t with
  | .ok t => .ok t
  | .error e => .error (.fix e)

/-- Fixing files. -/
def fixJob (w : Wording) (dryRun : Bool) : Job where
  change := fixedText w
  line := fileLine "Fixed" "Would fix" dryRun
  count := countLine "changed" dryRun
  writes := !dryRun
  isStrict := false

/-- The dialect with so many blanks per level. -/
def indented (indentWidth : Int) : Dialect := { Dialect.standard with indentWidth }

/-- The text laid out. -/
def laidText (dialect : Dialect) (t : Text) : Except Crash Text :=
  match format? dialect t with
  | .ok t => .ok t
  | .error e => .error (.noRoom e)

/-- Laying out files, or only checking whether they are. -/
def formatJob (dialect : Dialect) (checkOnly : Bool) : Job where
  change := laidText dialect
  line := fileLine "Reformatted" "Would reformat" checkOnly
  count := countLine "reformatted" checkOnly
  writes := !checkOnly
  isStrict := checkOnly

/-- A text with a newline at its end, one more only if it has none. -/
def withNewline (t : Text) : Text := if t.getLast? = some '\n' then t else t ++ ['\n']

/-- Shows some files laid out. -/
def showLaid (dialect : Dialect) (sources : List Source) : Outcome :=
  match sources.mapM fun s => laidText dialect s.text with
  | .ok texts => ⟨0, .verbatim (texts.flatMap withNewline), []⟩
  | .error e => .crashed e

/-! ## 3. All commands -/

/-- Carries out a command. -/
def run (p : Place) : Command → Outcome × FileTree
  | .check paths locale asJson =>
    withSources p paths fun sources =>
      (checkSources p.terminal (p.settings.wording locale) asJson sources, p.tree)
  | .fix paths dryRun =>
    withSources p paths ((fixJob (p.settings.wording none) dryRun).run p.terminal p.tree)
  | .format paths checkOnly false indentWidth =>
    withSources p paths ((formatJob (indented indentWidth) checkOnly).run p.terminal p.tree)
  | .format paths _ true indentWidth =>
    let (o, t) := withSources p paths fun sources =>
      (showLaid (indented indentWidth) sources, p.tree)
    (if o.exitCode = 2 then { o with output := .verbatim [] } else o, t)
  | .outline path =>
    withSources p [path] fun sources =>
      (.printed 0 <| (sources.flatMap fun s => treeOf s.path (Outline.symbols s.text)).mapM
        (Line.shown p.terminal), p.tree)
  | .serve _ => (⟨0, .server, []⟩, p.tree)

/-- Carries out what the words of a command line ask for.  Unless everything is to be logged, the
log level that is set has to exist, and no path may be turned away. -/
def runWords (p : Place) (words : List String) : Outcome × FileTree :=
  match Invocation.ofWords words with
  | .misuse => (⟨2, .usage, []⟩, p.tree)
  | .help => (⟨0, .usage, []⟩, p.tree)
  | .named verbose request =>
    match if verbose then .ok "DEBUG" else p.settings.checkLogLevel with
    | .error e => (.crashed (.settings e), p.tree)
    | .ok _ =>
      match request with
      | .misuse => (⟨2, .usage, []⟩, p.tree)
      | .help => (⟨0, .usage, []⟩, p.tree)
      | .run c =>
        if c.paths.any (p.tree.turnsAway p.folder) then (⟨2, .usage, []⟩, p.tree) else run p c

end Command
end HypnoScript
