/-
# Messages

Every message has a key, and a text in each language that is spoken.  A locale is named by a
language and perhaps a region (`de`, `de_DE`, `de-DE`); a language that is not spoken, and an empty
name, count as English.
-/
import HypnoScript.Text.Basic

namespace HypnoScript

/-- The messages of the checks and the titles of the quick fixes. -/
inductive Message where
  | noOpenWrapper
  | noCloseWrapper
  | duplicateOpenWrapper
  | duplicateCloseWrapper
  | wrapperOrder
  | unbalancedBracket
  | missingTerminator
  | unusedVariable
  | addWrapper
  | addTerminator
  | removeUnused
  | removeDuplicate
  deriving DecidableEq, Repr

/-- The languages that are spoken. -/
inductive Language where
  | english
  | german
  deriving DecidableEq, Repr

/-- A choice of words: a text for every message.  Where a name belongs into the text, it has
`Message.namePlace`. -/
abbrev Wording := Message → String

namespace Message

/-- The key of a message. -/
def key : Message → String
  | .noOpenWrapper => "error_no_focus"
  | .noCloseWrapper => "error_no_relax"
  | .duplicateOpenWrapper => "error_multiple_focus"
  | .duplicateCloseWrapper => "error_multiple_relax"
  | .wrapperOrder => "error_focus_order"
  | .unbalancedBracket => "error_unbalanced_braces"
  | .missingTerminator => "error_missing_semicolon"
  | .unusedVariable => "hint_unused_variable"
  | .addWrapper => "codeaction_focus_wrapper"
  | .addTerminator => "codeaction_add_semicolon"
  | .removeUnused => "codeaction_remove_unused"
  | .removeDuplicate => "codeaction_remove_duplicate"

/-- All messages. -/
def all : List Message :=
  [.noOpenWrapper, .noCloseWrapper, .duplicateOpenWrapper, .duplicateCloseWrapper, .wrapperOrder,
    .unbalancedBracket, .missingTerminator, .unusedVariable, .addWrapper, .addTerminator,
    .removeUnused, .removeDuplicate]

/-- The message with a key. -/
def ofKey? (key : String) : Option Message := all.find? (·.key == key)

/-- What stands in a text for a name. -/
def namePlace : Text := "\x7bname\x7d".toList

/-- The text with a name put in. -/
def withName (template : String) (name : Text) : String :=
  String.ofList (Text.replace namePlace name template.toList)

end Message

namespace Language

/-- The language with a code. -/
def ofCode? (code : Text) : Option Language :=
  if code = "en".toList then some .english
  else if code = "de".toList then some .german
  else none

/-- The codes of the languages, in alphabetical order. -/
def codes : List String := ["de", "en"]

/-- The language of a locale.  Only the part before the first hyphen or underscore counts, and case
does not.  No other letters than those of ASCII have `d`, `e` or `n` as their small letter. -/
def ofLocale (locale : String) : Language :=
  let name := (Text.trim locale.toList).map fun c => if c = '_' then '-' else c.toLower
  (ofCode? (name.takeWhile (· != '-'))).getD .english

/-- The texts of a language. -/
def wording : Language → Wording
  | .english => fun
    | .noOpenWrapper => "Program must start with a 'Focus' block"
    | .noCloseWrapper => "Program must end with 'Relax'"
    | .duplicateOpenWrapper => "Only one 'Focus' block is allowed per program"
    | .duplicateCloseWrapper => "Only one 'Relax' is allowed per program"
    | .wrapperOrder => "'Focus' must come before 'Relax'"
    | .unbalancedBracket => "Unbalanced brace, parenthesis or bracket"
    | .missingTerminator => "Statement should end with ';'"
    | .unusedVariable => "Variable '\x7bname\x7d' is declared but never used"
    | .addWrapper => "Wrap program in 'Focus \x7b ... \x7d Relax'"
    | .addTerminator => "Add missing ';'"
    | .removeUnused => "Remove unused variable"
    | .removeDuplicate => "Remove duplicate"
  | .german => fun
    | .noOpenWrapper => "Programm muss mit einem 'Focus'-Block beginnen"
    | .noCloseWrapper => "Programm muss mit 'Relax' enden"
    | .duplicateOpenWrapper => "Nur ein 'Focus'-Block pro Programm erlaubt"
    | .duplicateCloseWrapper => "Nur ein 'Relax' pro Programm erlaubt"
    | .wrapperOrder => "'Focus' muss vor 'Relax' stehen"
    | .unbalancedBracket => "Unausgeglichene Klammer"
    | .missingTerminator => "Anweisung sollte mit ';' enden"
    | .unusedVariable => "Variable '\x7bname\x7d' wird deklariert, aber nie verwendet"
    | .addWrapper => "Programm in 'Focus \x7b ... \x7d Relax' einschließen"
    | .addTerminator => "Fehlendes ';' hinzufügen"
    | .removeUnused => "Ungenutzte Variable entfernen"
    | .removeDuplicate => "Duplikat entfernen"

end Language

namespace Wording

/-- The usual words. -/
def standard : Wording := Language.english.wording

/-- The words of a locale, if one is named. -/
def ofLocale? : Option String → Wording
  | none => standard
  | some locale => (Language.ofLocale locale).wording

/-- The text of the message with a key; an unknown key stands for itself. -/
def lookup (w : Wording) (key : String) : String :=
  match Message.ofKey? key with
  | some m => w m
  | none => key

end Wording
end HypnoScript
