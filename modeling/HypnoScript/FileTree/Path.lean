/-
# Paths

A path is a list of names, behind an anchor if it is absolute.  Written out, repeated slashes, a
slash at the end and names that are a single point vanish; a name of two points stays, since what it
leads to depends on the files.
-/
import HypnoScript.Dialect

namespace HypnoScript

/-- A path to a file or folder. -/
structure Path where
  /-- The slash, or the two slashes, that an absolute path starts with. -/
  anchor : String
  names : List String
  deriving DecidableEq, Repr

namespace Path

/-- The anchor of a path that starts with so many slashes: two of them are kept as they are. -/
def anchorOf (slashes : Nat) : String :=
  if slashes = 0 then "" else if slashes = 2 then "//" else "/"

/-- The path that a word stands for. -/
def ofString (s : String) : Path :=
  let t := s.toList
  { anchor := anchorOf (t.takeWhile (· == '/')).length
    names := ((Text.split '/' t).map String.ofList).filter fun n => n != "" && n != "." }

/-- The path as a word. -/
def toString (p : Path) : String :=
  if p.anchor.isEmpty && p.names.isEmpty then "." else p.anchor ++ "/".intercalate p.names

/-- The path to a file further down. -/
def below (p : Path) (names : List String) : Path := { p with names := p.names ++ names }

/-- The ending of a name from its last point on; none if that is the first or the last character. -/
def suffixOf (name : Text) : Text :=
  let ending := (name.reverse.takeWhile (· != '.')).reverse
  if ending.length + 1 < name.length ∧ !ending.isEmpty then '.' :: ending else []

/-- The ending of the last name of a path. -/
def suffix (p : Path) : Text := suffixOf (p.names.getLast?.getD "").toList

/-- Whether the path names a source file, going by the ending of its name.  Case does not matter;
no other letters than those of ASCII have a letter of these endings as their small letter. -/
def isSource (p : Path) : Bool :=
  sourceSuffixes.contains (String.ofList (p.suffix.map Char.toLower))

end Path
end HypnoScript
