/-
# Command lines

What the words of a command line ask for.  Options may stand before, between and behind the paths of
a command, but the options for all commands stand before its name.  Two hyphens alone end the
options.  Long options take their value behind an equals sign or as the next word, and of an option
that is given twice the last one counts; short options can be put together behind one hyphen.
-/
import HypnoScript.FileTree.Path
import HypnoScript.Text.Spelling

namespace HypnoScript
namespace Command

/-! ## 1. Options -/

/-- The options that a command has. -/
structure OptionTable where
  /-- Long options without a value. -/
  flags : List String
  /-- Long options with a value. -/
  valued : List String := []
  /-- The letters of short options, each with the long option that it stands for. -/
  letters : List (Char × String) := [('h', "--help")]

/-- The options and the other words of a command line. -/
structure Words where
  options : List (String × String) := []
  arguments : List String := []

namespace Words

/-- One option more in front. -/
def addOption (w : Words) (name value : String) : Words :=
  { w with options := (name, value) :: w.options }

/-- Whether an option is given. -/
def has (w : Words) (name : String) : Bool := w.options.any (·.1 == name)

/-- The value of an option; of several the last. -/
def value? (w : Words) (name : String) : Option String :=
  (w.options.reverse.find? (·.1 == name)).map (·.2)

end Words

/-- The long options that the letters behind a hyphen stand for. -/
def lettersOf (table : OptionTable) (letters : Text) : Option (List String) :=
  letters.mapM fun c => table.letters.lookup c

/-- The part of a word before its first equals sign, and the part behind it. -/
def splitValue (word : Text) : String × Option String :=
  let name := word.takeWhile (· != '=')
  let rest := word.dropWhile (· != '=')
  (String.ofList name, if rest.isEmpty then none else some (String.ofList (rest.drop 1)))

/-- Sorts the words of a command line into options and arguments; nothing if an option is unknown,
lacks its value or has one that it does not take.  If options may not stand behind arguments, the
first argument ends them. -/
def sortWords (table : OptionTable) (mixed : Bool) : List String → Option Words
  | [] => some {}
  | word :: words =>
    match word.toList with
    | '-' :: '-' :: [] => some { arguments := words }
    | '-' :: c :: cs =>
      let (name, explicit) := splitValue ('-' :: c :: cs)
      if table.flags.contains name then
        if explicit.isSome then none
        else (sortWords table mixed words).map (·.addOption name "")
      else if table.valued.contains name then
        match explicit, words with
        | some v, words => (sortWords table mixed words).map (·.addOption name v)
        | none, v :: words => (sortWords table mixed words).map (·.addOption name v)
        | none, [] => none
      else if c = '-' then none
      else
        match lettersOf table (c :: cs), sortWords table mixed words with
        | some names, some w => some { w with options := names.map (·, "") ++ w.options }
        | _, _ => none
    | _ =>
      if mixed then
        (sortWords table mixed words).map fun w => { w with arguments := word :: w.arguments }
      else some { arguments := word :: words }

end Command

/-! ## 2. Commands -/

/-- The servers that can be started. -/
inductive Server where
  | api
  | tools
  deriving DecidableEq, Repr

/-- What a command line can ask for. -/
inductive Command where
  /-- Report what is wrong with some files. -/
  | check (paths : List Path) (locale : Option String) (asJson : Bool)
  /-- Make the preferred fixes in some files. -/
  | fix (paths : List Path) (dryRun : Bool)
  /-- Lay out some files. -/
  | format (paths : List Path) (checkOnly toOutput : Bool) (indentWidth : Int)
  /-- Show the named blocks of a file. -/
  | outline (path : Path)
  /-- Start a server. -/
  | serve (server : Server)

namespace Command

/-- The paths that a command is given. -/
def paths : Command → List Path
  | .check paths .. => paths
  | .fix paths _ => paths
  | .format paths .. => paths
  | .outline path => [path]
  | .serve _ => []

/-- What comes of the words behind the name of a command. -/
inductive Request where
  /-- The words are wrong. -/
  | misuse
  /-- Help is asked for. -/
  | help
  /-- A command is to be carried out. -/
  | run (command : Command)

/-- A request from sorted words: help comes first, and no command means that the words are wrong. -/
def Request.ofWords (words : Option Words) (command : Words → Option Command) : Request :=
  match words with
  | none => .misuse
  | some w =>
    if w.has "--help" then .help
    else match command w with
      | some c => .run c
      | none => .misuse

/-- The paths of a command that needs at least one. -/
def pathsOf (w : Words) : Option (List Path) :=
  if w.arguments.isEmpty then none else some (w.arguments.map Path.ofString)

/-- The value of an option that is a whole number. -/
def intOption (w : Words) (name : String) (default : Int) : Option Int :=
  match w.value? name with
  | some v => Text.integer? v.toList
  | none => some default

/-- The check command. -/
def checkRequest (words : List String) : Request :=
  let table : OptionTable := { flags := ["--json", "--help"], valued := ["--locale"] }
  .ofWords (sortWords table true words) fun w => do
    return .check (← pathsOf w) (w.value? "--locale") (w.has "--json")

/-- The fix command. -/
def fixRequest (words : List String) : Request :=
  .ofWords (sortWords { flags := ["--dry-run", "--help"] } true words) fun w => do
    return .fix (← pathsOf w) (w.has "--dry-run")

/-- The format command; the indentation is at least one blank. -/
def formatRequest (words : List String) : Request :=
  let table : OptionTable :=
    { flags := ["--check", "--stdout", "--help"], valued := ["--indent-width"] }
  .ofWords (sortWords table true words) fun w => do
    let paths ← pathsOf w
    let width ← intOption w "--indent-width" 4
    if width < 1 then none
    else return .format paths (w.has "--check") (w.has "--stdout") width

/-- The outline command, with one path. -/
def outlineRequest (words : List String) : Request :=
  .ofWords (sortWords { flags := ["--help"] } true words) fun w =>
    match w.arguments with
    | [p] => some (.outline (Path.ofString p))
    | _ => none

/-- The command to start a server, from the words behind its name. -/
def serverRequest (name : String) (words : List String) : Request :=
  if name = "api" then
    let table : OptionTable := { flags := ["--help"], valued := ["--host", "--port"] }
    .ofWords (sortWords table true words) fun w => do
      let _ ← intOption w "--port" 8000
      if w.arguments.isEmpty then return .serve .api else none
  else if name = "mcp" then
    let table : OptionTable := { flags := ["--help"], valued := ["--transport"] }
    .ofWords (sortWords table true words) fun w =>
      if w.arguments.isEmpty then some (.serve .tools) else none
  else .misuse

/-- The serve command. -/
def serveRequest (words : List String) : Request :=
  match sortWords { flags := ["--help"] } false words with
  | none => .misuse
  | some w =>
    if w.has "--help" then .help
    else match w.arguments with
      | name :: words => serverRequest name words
      | [] => .misuse

/-- The request of a command with a name, if there is one. -/
def named? (name : String) : Option (List String → Request) :=
  [("check", checkRequest), ("fix", fixRequest), ("format", formatRequest),
    ("outline", outlineRequest), ("serve", serveRequest)].lookup name

/-- What a whole command line asks for. -/
inductive Invocation where
  /-- The words are wrong before a command is found. -/
  | misuse
  /-- Help is asked for before a command. -/
  | help
  /-- A command is named; `verbose` tells whether everything is to be logged. -/
  | named (verbose : Bool) (request : Request)

/-- The invocation of a command line. -/
def Invocation.ofWords (words : List String) : Invocation :=
  let table : OptionTable :=
    { flags := ["--verbose", "--help"], letters := [('v', "--verbose"), ('h', "--help")] }
  match sortWords table false words with
  | none => .misuse
  | some w =>
    if w.has "--help" then .help
    else match w.arguments with
      | [] => .misuse
      | name :: words =>
        match named? name with
        | some request => .named (w.has "--verbose") (request words)
        | none => .misuse

end Command
end HypnoScript
