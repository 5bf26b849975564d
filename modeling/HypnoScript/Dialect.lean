/-
# The words of the language

The fixed words of HypnoScript, and the *dialect*: the words, the terminator and the indentation
that the checks and the layout can be told to go by instead of the usual ones.
-/
import HypnoScript.Text.Basic

namespace HypnoScript

/-! ## 1. Fixed words -/

/-- The words that are never names of variables. -/
def coreKeywords : List String :=
  ["Focus", "Relax", "entrance", "finale", "induce", "implant", "embed", "freeze", "sharedTrance",
    "suggestion", "awaken", "observe", "whisper", "command", "murmur", "call", "mindLink", "from",
    "external", "session", "constructor", "expose", "conceal", "dominant", "tranceify", "loop",
    "while", "pendulum", "if", "else", "drift", "pauseReality", "suspend", "accelerateTime",
    "decelerateTime", "trance", "subconscious", "lucid", "deepFocus", "deeperStill", "snap", "sink",
    "sinkTo", "oscillate", "anchor", "trigger", "mesmerize", "await", "surrenderTo", "entrain",
    "when", "otherwise", "imperative"]

/-- The keywords that are written like the name of a function, close to what follows. -/
def callLikeKeywords : List String := ["suggestion", "constructor"]

/-- The names of the types. -/
def typeKeywords : List String := ["number", "string", "boolean", "trance", "lucid"]

/-- The operators that are written as words, each with its symbol. -/
def operatorSynonyms : List (String × String) :=
  [("youAreFeelingVerySleepy", "=="), ("youCannotResist", "!="), ("lookAtTheWatch", ">"),
    ("fallUnderMySpell", "<"), ("yourEyesAreGettingHeavy", ">="), ("goingDeeper", "<="),
    ("underMyControl", "&&"), ("resistanceIsFutile", "||"), ("lucidFallback", "??"),
    ("dreamReach", "?.")]

/-- The endings of the names of source files. -/
def sourceSuffixes : List String := [".hyp", ".hypno"]

/-! ## 2. Dialects -/

/-- The words, the terminator and the indentation that checks and layout go by. -/
structure Dialect where
  /-- Blanks per level of indentation; none if negative. -/
  indentWidth : Int := 4
  /-- The word that opens the program. -/
  openWrapper : Text := "Focus".toList
  /-- The word that closes the program. -/
  closeWrapper : Text := "Relax".toList
  /-- What ends a statement. -/
  terminator : Text := ";".toList
  /-- The words that start a statement. -/
  statementKeywords : List Text :=
    ["induce", "implant", "embed", "freeze", "observe", "whisper", "command", "murmur", "drift",
      "pauseReality", "anchor", "oscillate", "awaken", "snap", "sink", "sinkTo"].map String.toList
  /-- The words that declare a variable. -/
  declarationKeywords : List Text :=
    ["induce", "implant", "embed", "freeze", "sharedTrance"].map String.toList
  /-- The words that stand one level further out than their block. -/
  dedentKeywords : List Text := ["else"].map String.toList
  deriving DecidableEq, Repr

namespace Dialect

/-- The usual dialect. -/
def standard : Dialect := {}

/-- The blanks of one level of indentation. -/
def indentUnit (d : Dialect) : Nat := d.indentWidth.toNat

end Dialect
end HypnoScript
