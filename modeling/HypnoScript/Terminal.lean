/-
# Terminals

What a command prints is text with marks in it: a piece that is to be shown in a style stands
between a mark that opens the style and one that closes it, as in `[red]No such file:[/red] a.hyp`.
A terminal makes of such a text what is shown, or it refuses the text, when the marks in it do not
fit together.

Paths are printed as they are, and a path can hold brackets.  So nothing is known here of what a
terminal makes of a path: all that is known is that it shows a plain text, and a plain text in a
style, as it is (`Terminal.render_source`).
-/
import HypnoScript.Text.Basic

namespace HypnoScript

/-! ## 1. Text with marks -/

/-- The styles that pieces of text are shown in. -/
inductive Style where
  | red
  | yellow
  | green
  | blue
  | dim
  | bold
  deriving DecidableEq, Repr

/-- The name of a style in a mark. -/
def Style.name : Style → Text
  | .red => "red".toList
  | .yellow => "yellow".toList
  | .green => "green".toList
  | .blue => "blue".toList
  | .dim => "dim".toList
  | .bold => "bold".toList

/-- A text in pieces, some of which are to be shown in a style. -/
abbrev Markup := List (Option Style × Text)

namespace Markup

/-- A piece with its marks. -/
def pieceSource : Option Style × Text → Text
  | (none, t) => t
  | (some s, t) => '[' :: s.name ++ ']' :: t ++ '[' :: '/' :: s.name ++ [']']

/-- The text with its marks, as it is handed to a terminal. -/
def source (m : Markup) : Text := m.flatMap pieceSource

/-- The text without its marks. -/
def text (m : Markup) : Text := m.flatMap (·.2)

/-- A character of which no mark, no name of a picture between colons and no escape of either can be
made. -/
def isPlainChar (c : Char) : Bool := c != '[' && c != ':' && c != '\\'

/-- All pieces are made of such characters. -/
def isPlain (m : Markup) : Bool := m.all fun p => p.2.all isPlainChar

/-- A text that is to be shown in no style. -/
def plain (s : String) : Markup := [(none, s.toList)]

end Markup

/-! ## 2. What is shown -/

/-- A terminal: what it shows for a text with marks, or what it says when it refuses the text. -/
structure Terminal where
  render : Text → Except String Text
  /-- Marks around plain pieces are taken for what they are, and the pieces are shown. -/
  render_source (m : Markup) (plain : m.isPlain = true) : render m.source = .ok m.text

end HypnoScript
