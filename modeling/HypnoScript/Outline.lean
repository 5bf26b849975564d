/-
# Outline

The named blocks of a text.  A block is declared on a line that starts with one of a few words, and
reaches to the brace that closes the first one opened at or behind its name, or to the last line if
that brace is never closed, or is that line alone if none is opened.

A session lists the suggestions and triggers inside it as its members.  The blocks inside other
blocks are not listed, except those inside the wrapper of the program, which are listed beside it.
Every block of more than one line can be folded, nested blocks included.
-/
import HypnoScript.Dialect
import HypnoScript.Document

namespace HypnoScript

/-- The kinds of named blocks. -/
inductive SymbolKind where
  /-- The wrapper of the program. -/
  | module
  /-- A session. -/
  | session
  /-- A record type. -/
  | record
  /-- A suggestion. -/
  | method
  /-- A trigger. -/
  | event
  /-- A block that is only set off. -/
  | namespace
  deriving DecidableEq, Repr

namespace SymbolKind

/-- The name of a kind. -/
def name : SymbolKind → String
  | .module => "module"
  | .session => "class"
  | .record => "struct"
  | .method => "method"
  | .event => "event"
  | .namespace => "namespace"

/-- All kinds. -/
def all : List SymbolKind := [.module, .session, .record, .method, .event, .namespace]

/-- The names, each with its kind. -/
def byName : List (String × SymbolKind) := all.map fun k => (k.name, k)

theorem lookup_name (k : SymbolKind) : byName.lookup k.name = some k := by cases k <;> decide

end SymbolKind

/-- A named block in an outline, with the blocks listed below it. -/
inductive Symbol where
  | mk (name : Text) (detail : String) (kind : SymbolKind) (range selection : Span)
      (children : List Symbol)

namespace Symbol

/-- The name of the block. -/
def name : Symbol → Text
  | mk name .. => name

/-- What kind of block it is, in the words of the language. -/
def detail : Symbol → String
  | mk _ detail .. => detail

/-- What kind of block it is. -/
def kind : Symbol → SymbolKind
  | mk _ _ kind .. => kind

/-- The lines of the block. -/
def range : Symbol → Span
  | mk _ _ _ range .. => range

/-- The name where it is declared. -/
def selection : Symbol → Span
  | mk _ _ _ _ selection _ => selection

/-- The blocks listed below it. -/
def children : Symbol → List Symbol
  | mk _ _ _ _ _ children => children

end Symbol

/-- A range of lines that can be folded. -/
structure FoldingRange where
  startLine : Int
  endLine : Int
  deriving DecidableEq, Repr

namespace Outline

/-! ## 1. Lines that declare a block -/

/-- How a kind of block is declared: by a word that is its own name, or by a word and a name. -/
structure Form where
  word : Text
  named : Bool
  kind : SymbolKind
  detail : String

/-- The wrapper of a program. -/
def focusForm : Form := ⟨"Focus".toList, false, .module, "Focus block"⟩

/-- A session. -/
def sessionForm : Form := ⟨"session".toList, true, .session, "session"⟩

/-- A record type. -/
def recordForm : Form := ⟨"tranceify".toList, true, .record, "tranceify"⟩

/-- A suggestion. -/
def suggestionForm : Form := ⟨"suggestion".toList, true, .method, "suggestion"⟩

/-- A trigger. -/
def triggerForm : Form := ⟨"trigger".toList, true, .event, "trigger"⟩

/-- A block that is only set off. -/
def deepFocusForm : Form := ⟨"deepFocus".toList, false, .namespace, "block"⟩

/-- The blocks that a text can consist of. -/
def topForms : List Form :=
  [focusForm, sessionForm, recordForm, suggestionForm, triggerForm, deepFocusForm]

/-- The blocks that a session can consist of. -/
def memberForms : List Form := [suggestionForm, triggerForm]

/-- A declared name and the column at which it starts. -/
structure Heading where
  name : Text
  column : Nat
  form : Form

/-- The heading that a line of code is, in one form. -/
def headingOf? (code : Text) (form : Form) : Option Heading :=
  let body := code.trimLeft
  let column := code.length - body.length
  (Text.afterStart? form.word body).bind fun rest =>
    if form.named then
      let nameOn := rest.trimLeft
      if nameOn.length < rest.length && nameOn.head?.any Text.startsName then
        some ⟨Text.leadingWord nameOn, code.length - nameOn.length, form⟩
      else none
    else if rest.headIsWord then none
    else some ⟨form.word, column, form⟩

/-- The heading that a line of code is, in the first of the forms that fits. -/
def heading? (forms : List Form) (code : Text) : Option Heading :=
  forms.findSome? (headingOf? code)

/-! ## 2. Where a block ends -/

/-- The number of lines that the text goes on for until the open blocks are closed.  A text that
ends before goes on to its end. -/
def linesToClose (depth : Nat) : Text → Nat
  | [] => 0
  | c :: cs =>
    if c = '{' then linesToClose (depth + 1) cs
    else if c = '}' then if depth ≤ 1 then 0 else linesToClose (depth - 1) cs
    else if c = '\n' then linesToClose depth cs + 1
    else linesToClose depth cs

/-- The number of lines that a block goes on for behind the line of its heading, given the code
from its name on: up to the closing brace of the first block that is opened. -/
def linesBelow (code : Text) : Nat :=
  let head := code.takeWhile (· != '{')
  let body := code.dropWhile (· != '{')
  if body.isEmpty then 0 else head.count '\n' + linesToClose 0 body

/-! ## 3. Blocks -/

/-- A declared block: its heading and the lines it covers. -/
structure Block where
  heading : Heading
  line : Nat
  linesBelow : Nat

namespace Block

/-- The last line of the block. -/
def endLine (b : Block) : Nat := b.line + b.linesBelow

/-- Whether the lines of the block are searched for further blocks beside it. -/
def isTransparent (b : Block) : Bool := b.heading.form.kind == .module

/-- The block as a symbol of an outline. -/
def toSymbol (b : Block) (d : Document) (children : List Symbol) : Symbol :=
  .mk b.heading.name b.heading.form.detail b.heading.form.kind
    (Span.ofLines b.line b.linesBelow (d.lineLength b.endLine))
    (Span.onLine b.line b.heading.column b.heading.name.length) children

end Block

/-- The block that a line declares. -/
def blockAt? (d : Document) (forms : List Form) (line : Nat) : Option Block :=
  (d.codeLines[line]?).bind fun code =>
    (heading? forms code).map fun h =>
      ⟨h, line, linesBelow (d.code.drop (d.lineStart line + h.column))⟩

/-- The blocks that `count` lines from `line` on declare, without those inside a block already
found; lines before `resume` belong to such a block. -/
def blocksFrom (d : Document) (forms : List Form) : (count line resume : Nat) → List Block
  | 0, _, _ => []
  | count + 1, line, resume =>
    if line < resume then blocksFrom d forms count (line + 1) resume
    else match blockAt? d forms line with
      | none => blocksFrom d forms count (line + 1) resume
      | some b =>
        b :: blocksFrom d forms count (line + 1)
          (if b.isTransparent then line + 1 else b.endLine + 1)

/-- The members of a session: the suggestions and triggers between its first and its last line. -/
def members (d : Document) (b : Block) : List Symbol :=
  (blocksFrom d memberForms (b.endLine - (b.line + 1)) (b.line + 1) 0).map fun m =>
    m.toSymbol d []

/-- The outline of a document. -/
def symbolsOf (d : Document) : List Symbol :=
  (blocksFrom d topForms d.lineCount 0 0).map fun b =>
    b.toSymbol d (if b.heading.form.kind == .session then members d b else [])

/-- The ranges of a document that can be folded. -/
def foldingRangesOf (d : Document) : List FoldingRange :=
  (List.range d.lineCount).filterMap fun line =>
    (blockAt? d topForms line).bind fun b =>
      if line < b.endLine then some ⟨line, b.endLine⟩ else none

/-- The outline of a text. -/
def symbols (t : Text) : List Symbol := symbolsOf (Document.ofText t)

/-- The ranges of a text that can be folded. -/
def foldingRanges (t : Text) : List FoldingRange := foldingRangesOf (Document.ofText t)

end Outline
end HypnoScript
