/-
# File trees

The folders and files that a command works on, each at its location: the names that lead to it from
the root.  A path is followed from a folder name by name, and each step has to start in a folder.

The operating system may refuse to look a path up, because a name in it is too long or a folder on
its way must not be searched, and it may refuse to open a file.  What it says then is part of the
tree, by the path as a command hands it over.  Every folder can be listed.
-/
import HypnoScript.FileTree.Path
import HypnoScript.Text.Spelling

namespace HypnoScript

/-- The names that lead to a file or folder from the root. -/
abbrev Location := List String

/-- Why the operating system does not do what it is asked to do with a path. -/
structure SystemFailure where
  /-- The kind of the failure. -/
  kind : String
  number : Nat
  reason : String
  deriving DecidableEq, Repr

namespace SystemFailure

/-- What it says. -/
def message (e : SystemFailure) (p : Path) : String :=
  s!"[Errno {e.number}] {e.reason}: " ++ Text.quoted p.toString

/-- A name in the path, or the path itself, is too long. -/
def nameTooLong : SystemFailure := ⟨"OSError", 36, "File name too long"⟩

/-- The kind of the failures that mean that something is not allowed. -/
def notPermitted : String := "PermissionError"

end SystemFailure

/-- Folders, and files with their octets. -/
structure FileTree where
  folders : List Location := []
  files : List (Location × List UInt8) := []
  /-- Why a path cannot be looked up; none if it can be, whether something is there or not. -/
  barred : Path → Option SystemFailure := fun _ => none
  /-- Why what lies at a path cannot be opened. -/
  locked : Path → Option SystemFailure := fun _ => none

namespace FileTree

/-- The locations above a location, the root left out. -/
def ancestors (l : Location) : List Location :=
  (List.range (l.length - 1)).map fun n => l.take (n + 1)

/-- The tree of some folders and files, with all folders that they lie in. -/
def ofEntries (folders : List Location) (files : List (Location × List UInt8)) : FileTree :=
  let above := (folders ++ files.map (·.1)).flatMap ancestors
  { folders := (folders ++ above).eraseDups, files }

/-- Whether there is a folder at a location. -/
def isFolder (t : FileTree) (l : Location) : Bool := l.isEmpty || t.folders.contains l

/-- The octets of the file at a location. -/
def read? (t : FileTree) (l : Location) : Option (List UInt8) := t.files.lookup l

/-- The tree with new octets in the file at a location. -/
def write (t : FileTree) (l : Location) (octets : List UInt8) : FileTree :=
  { t with files := t.files.map fun f => if f.1 = l then (l, octets) else f }

/-- The location one name further: two points lead back. -/
def enter (l : Location) (n : String) : Location := if n = ".." then l.dropLast else l ++ [n]

/-- The location that names lead to from a location. -/
def follow (t : FileTree) : Location → List String → Option Location
  | l, [] => some l
  | l, n :: names => if t.isFolder l then t.follow (enter l n) names else none

/-- The location of a path, seen from a folder. -/
def resolve (t : FileTree) (folder : Location) (p : Path) : Option Location :=
  t.follow (if p.anchor.isEmpty then folder else []) p.names

/-- What is left of a location behind the names that lead to another one. -/
def relative? : (base l : Location) → Option (List String)
  | [], l => some l
  | _ :: _, [] => none
  | b :: base, n :: l => if b = n then relative? base l else none

/-- All that lies below a folder, by the names that lead there. -/
def listed (t : FileTree) (folder : Location) : List (List String) :=
  (t.folders ++ t.files.map (·.1)).filterMap (relative? folder)

/-- The files below a folder, by the names that lead to them from there, in the order of these
names. -/
def below (t : FileTree) (folder : Location) : List (List String) :=
  (t.files.filterMap fun f => relative? folder f.1).mergeSort
    fun a b => decide (@List.le _ String.instLT a b)

/-- Whether a path is turned away before a command is carried out: something lies there that must
not be read. -/
def turnsAway (t : FileTree) (folder : Location) (p : Path) : Bool :=
  (t.barred p).isNone && (t.locked p).any (·.kind == SystemFailure.notPermitted) &&
    (t.resolve folder p).any fun l => t.isFolder l || (t.read? l).isSome

/-! ## Limits on names -/

/-- Whether one of some names, looked up in a folder, has more than 255 octets. -/
def isOverlong (t : FileTree) : Location → List String → Bool
  | _, [] => false
  | l, n :: names => t.isFolder l && (255 < n.utf8ByteSize || t.isOverlong (enter l n) names)

/-- The tree in a file system whose names have at most 255 octets, and whose paths have at most
4095. -/
def withLimits (t : FileTree) (folder : Location) : FileTree :=
  { t with
    barred := fun p =>
      if 4095 < p.toString.utf8ByteSize ||
          t.isOverlong (if p.anchor.isEmpty then folder else []) p.names then
        some .nameTooLong
      else t.barred p }

end FileTree
end HypnoScript
