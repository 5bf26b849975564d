/-
# The toolbox

The tools that are offered to an assistant: analysis, layout, fixes and outlines of a text.  What a
tool is given is loosely typed, so a tool fails when an argument has an unknown name or when a text,
a locale or an indentation is of the wrong kind.
-/
import HypnoScript.Layout
import HypnoScript.Outline
import HypnoScript.Settings
import HypnoScript.Wire.Forms

namespace HypnoScript
namespace Toolbox

open Json (Value)

/-- The tools. -/
inductive Tool where
  | analyze
  | format
  | fix
  | outline
  deriving DecidableEq, Repr

/-- The name of a tool. -/
def Tool.name : Tool → String
  | .analyze => "analyze"
  | .format => "format_document"
  | .fix => "fix_document"
  | .outline => "outline"

/-- The tool with a name. -/
def Tool.ofName? (name : String) : Option Tool :=
  [Tool.analyze, .format, .fix, .outline].find? (·.name == name)

/-- The arguments that a tool takes, of which only the first has to be given. -/
def Tool.parameters : Tool → List String
  | .analyze => ["text", "locale"]
  | .format => ["text", "indent_width"]
  | .fix | .outline => ["text"]

/-- Why a tool has no result. -/
inductive Failure where
  /-- The tool does not take an argument of this name. -/
  | unknownArgument (tool : Tool) (name : String)
  /-- The text is left out. -/
  | textMissing (tool : Tool)
  | notText (e : NotText)
  /-- The locale is of a kind that names none. -/
  | notLocale (kind : String)
  | faults (fs : List Wire.Fault)
  | fix (e : QuickFix.Failure)
  | noRoom (e : Layout.NoRoom)

/-- The text that a tool is given, if no argument is there that it does not take. -/
def givenText (tool : Tool) (arguments : List (String × Value)) : Except Failure Value :=
  match (arguments.map (·.1)).find? (!tool.parameters.contains ·) with
  | some name => .error (.unknownArgument tool name)
  | none =>
    match Json.field? arguments "text" with
    | some v => .ok v
    | none => .error (.textMissing tool)

/-- A value as a text. -/
def textOf (v : Value) : Except Failure Text :=
  match textOfValue v with
  | .ok t => .ok t
  | .error e => .error (.notText e)

/-- The locale that a tool is given, if any; a value that stands for nothing counts as none. -/
def localeOf (arguments : List (String × Value)) : Except Failure (Option String) :=
  match Json.field? arguments "locale" with
  | some (.string l) => .ok (some l)
  | some v => if v.isNothing then .ok none else .error (.notLocale v.kindName)
  | none => .ok none

/-- The dialect with the indentation that a tool is given. -/
def dialectOf (arguments : List (String × Value)) : Except Failure Dialect :=
  match Json.field? arguments "indent_width" with
  | none => .ok Dialect.standard
  | some v =>
    match Dialect.ofValue (.object [("indent_width", v)]) with
    | .ok d => .ok d
    | .error fs => .error (.faults fs)

/-- The result of a tool. -/
def call (s : Settings) (tool : Tool) (arguments : List (String × Value)) :
    Except Failure Value := do
  let given ← givenText tool arguments
  match tool with
  | .analyze =>
    let w := s.wording (← localeOf arguments)
    let t ← textOf given
    return .list ((HypnoScript.analyze Dialect.standard w t).map Diagnostic.toValue)
  | .format =>
    let d ← dialectOf arguments
    let t ← textOf given
    match format? d t with
    | .ok t => return .string (String.ofList t)
    | .error e => .error (.noRoom e)
  | .fix =>
    let t ← textOf given
    match fixDocument Dialect.standard (s.wording none) t with
    | .ok t => return .string (String.ofList t)
    | .error e => .error (.fix e)
  | .outline =>
    let t ← textOf given
    return .list ((Outline.symbols t).map Symbol.toValue)

end Toolbox
end HypnoScript
