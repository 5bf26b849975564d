/-
# Wire forms

How positions, spans, diagnostics, edits, quick fixes, symbols, folding ranges and dialects are
written as loosely typed values (`toValue`), and how they are checked when they come in as such
(`ofValue`).  Fields that are not known are ignored.
-/
import HypnoScript.Outline
import HypnoScript.QuickFix
import HypnoScript.Wire.Checked

namespace HypnoScript

open Json (Value)
open Wire

/-! ## 1. Positions and spans -/

namespace Position

/-- The wire form of a position. -/
def toValue (p : Position) : Value :=
  .object [("line", .int p.line), ("column", .int p.column)]

/-- A checked position. -/
def ofValue (v : Value) : Checked Position :=
  (fieldsOf v).andThen fun fs =>
    Position.mk <$> required natural fs "line" <*> required natural fs "column"

/-- The position a number of columns further to the right. -/
def translate (p : Position) (columns : Int) : Checked Position :=
  ofValue (.object [("line", .int p.line), ("column", .int (p.column + columns))])

end Position

namespace Span

/-- The span between two ends, which have to be in order. -/
def checked (start stop : Position) : Checked Span :=
  match Span.ofEnds start stop with
  | .ok s => .ok s
  | .error i => .fault (.inconsistent i.message)

/-- The wire form of a span. -/
def toValue (s : Span) : Value :=
  .object [("start", s.start.toValue), ("end", s.stop.toValue)]

/-- A checked span. -/
def ofValue (v : Value) : Checked Span :=
  (fieldsOf v).andThen fun fs =>
    let ends :=
      Prod.mk <$> required Position.ofValue fs "start" <*> required Position.ofValue fs "end"
    ends.andThen fun ends => checked ends.1 ends.2

/-- The span of a number of columns on one line, all given loosely typed. -/
def at? (line column : Value) (width : Int) : Checked Span :=
  (Position.ofValue (.object [("line", line), ("column", column)])).andThen fun start =>
    (start.translate width).andThen fun stop => checked start stop

end Span

/-! ## 2. Diagnostics and fixes -/

namespace Severity

/-- A checked severity. -/
def ofValue (v : Value) : Checked Severity :=
  match Wire.int v with
  | .ok n =>
    match ofInt? n with
    | some s => .ok s
    | none => .fault .notListed
  | .error _ => .fault .notListed

end Severity

namespace Rule

/-- A checked code of a rule. -/
def ofValue : Value → Checked Rule := listed byCode

end Rule

namespace Diagnostic

/-- The wire form of a diagnostic. -/
def toValue (g : Diagnostic) : Value :=
  .object [("range", g.range.toValue), ("message", .string g.message),
    ("severity", .int g.severity.toNat),
    ("code", match g.rule with | some r => .string r.code | none => .null),
    ("source", .string g.source)]

/-- A checked diagnostic. -/
def ofValue (v : Value) : Checked Diagnostic :=
  (fieldsOf v).andThen fun fs =>
    Diagnostic.mk <$> required Span.ofValue fs "range" <*> required string fs "message" <*>
      required Severity.ofValue fs "severity" <*>
      optional (nullable Rule.ofValue) none fs "code" <*>
      optional string "hypnoscript" fs "source"

end Diagnostic

namespace Edit

/-- The wire form of an edit. -/
def toValue (e : Edit) : Value :=
  .object [("range", e.range.toValue), ("new_text", .string (String.ofList e.newText))]

/-- A checked edit. -/
def ofValue (v : Value) : Checked Edit :=
  (fieldsOf v).andThen fun fs =>
    Edit.mk <$> required Span.ofValue fs "range" <*> required text fs "new_text"

end Edit

namespace QuickFix

/-- The wire form of a quick fix. -/
def toValue (f : QuickFix) : Value :=
  .object [("title", .string f.title), ("code", .string f.rule.code),
    ("edits", .list (f.edits.map Edit.toValue)), ("preferred", .bool f.preferred)]

/-- A checked quick fix. -/
def ofValue (v : Value) : Checked QuickFix :=
  (fieldsOf v).andThen fun fs =>
    QuickFix.mk <$> required string fs "title" <*> required Rule.ofValue fs "code" <*>
      required (listOf Edit.ofValue) fs "edits" <*> optional bool false fs "preferred"

end QuickFix

/-! ## 3. Outlines -/

namespace SymbolKind

/-- A checked kind. -/
def ofValue : Value → Checked SymbolKind := listed byName

end SymbolKind

namespace Symbol

mutual

/-- The wire form of a symbol. -/
def toValue : Symbol → Value
  | mk name detail kind range selection children =>
    .object [("name", .string (String.ofList name)), ("detail", .string detail),
      ("kind", .string kind.name), ("range", range.toValue), ("selection_range", selection.toValue),
      ("children", .list (toValues children))]

/-- The wire forms of some symbols. -/
def toValues : List Symbol → List Value
  | [] => []
  | s :: ss => s.toValue :: toValues ss

end

theorem sizeOf_items_lt {fields : List (String × Value)} {name : String} {vs : List Value}
    (h : Json.field? fields name = some (.list vs)) : sizeOf vs < sizeOf fields := by
  obtain ⟨k, hk⟩ := Json.mem_of_field? h
  have := List.sizeOf_lt_of_mem hk
  simp only [Prod.mk.sizeOf_spec, Value.list.sizeOf_spec] at this
  omega

mutual

/-- A checked symbol. -/
def ofValue (v : Value) : Checked Symbol :=
  match v with
  | .object fs =>
    Symbol.mk <$> required text fs "name" <*> required string fs "detail" <*>
      required SymbolKind.ofValue fs "kind" <*> required Span.ofValue fs "range" <*>
      required Span.ofValue fs "selection_range" <*>
      (match hf : Json.field? fs "children" with
        | some (.list vs) =>
          have := sizeOf_items_lt hf
          Checked.under (.field "children") (ofValues 0 vs)
        | some _ => Checked.under (.field "children") (.fault .notList)
        | none => .ok [])
  | _ => .fault .notObject
termination_by sizeOf v

/-- Checked symbols, the first with index `n`. -/
def ofValues (n : Nat) (vs : List Value) : Checked (List Symbol) :=
  match vs with
  | [] => .ok []
  | v :: vs => List.cons <$> Checked.under (.index n) (ofValue v) <*> ofValues (n + 1) vs
termination_by sizeOf vs

end

end Symbol

namespace FoldingRange

/-- The wire form of a range that can be folded. -/
def toValue (r : FoldingRange) : Value :=
  .object [("start_line", .int r.startLine), ("end_line", .int r.endLine)]

/-- A checked range that can be folded. -/
def ofValue (v : Value) : Checked FoldingRange :=
  (fieldsOf v).andThen fun fs =>
    FoldingRange.mk <$> required int fs "start_line" <*> required int fs "end_line"

end FoldingRange

namespace Outline

/-- The wire form of an outline with its folding ranges. -/
def toValue (symbols : List Symbol) (ranges : List FoldingRange) : Value :=
  .object [("symbols", .list (symbols.map Symbol.toValue)),
    ("folding_ranges", .list (ranges.map FoldingRange.toValue))]

end Outline

/-! ## 4. Dialects -/

namespace Dialect

/-- The wire form of a list of words. -/
def wordsToValue (words : List Text) : Value := .list (words.map fun w => .string (String.ofList w))

/-- The wire form of a dialect. -/
def toValue (d : Dialect) : Value :=
  .object [("indent_width", .int d.indentWidth),
    ("open_wrapper", .string (String.ofList d.openWrapper)),
    ("close_wrapper", .string (String.ofList d.closeWrapper)),
    ("terminator", .string (String.ofList d.terminator)),
    ("statement_keywords", wordsToValue d.statementKeywords),
    ("declaration_keywords", wordsToValue d.declarationKeywords),
    ("dedent_keywords", wordsToValue d.dedentKeywords)]

/-- A checked list of words. -/
def wordsOfValue : Value → Checked (List Text) := listOf text .notSequence

/-- A checked dialect.  What is left out is as usual. -/
def ofValue (v : Value) : Checked Dialect :=
  (fieldsOf v).andThen fun fs =>
    Dialect.mk <$> optional int standard.indentWidth fs "indent_width" <*>
      optional text standard.openWrapper fs "open_wrapper" <*>
      optional text standard.closeWrapper fs "close_wrapper" <*>
      optional text standard.terminator fs "terminator" <*>
      optional wordsOfValue standard.statementKeywords fs "statement_keywords" <*>
      optional wordsOfValue standard.declarationKeywords fs "declaration_keywords" <*>
      optional wordsOfValue standard.dedentKeywords fs "dedent_keywords"

end Dialect

/-! ## 5. Texts -/

/-- Something else than a text has been handed in as a document. -/
structure NotText where
  kind : String
  deriving DecidableEq, Repr

namespace NotText

/-- What is wrong with it. -/
def message (e : NotText) : String := "Document text must be str, got " ++ e.kind

end NotText

/-- The text of a document. -/
def textOfValue : Value → Except NotText Text
  | .string s => .ok s.toList
  | v => .error ⟨v.kindName⟩

end HypnoScript
