/-
# Declarations and their use

A declaration is a chain of declaration keywords, each followed by blanks, and then a name.  The
chain takes as many keywords as it can: a keyword is the declared name only when no name follows it.
A chain starts at a word boundary.  Without any keywords, the empty text counts as the only one.

A variable is used when its name stands in the code as a whole word more often than it is declared;
blocks and shadowing make no difference.
-/
import HypnoScript.Dialect
import HypnoScript.Document
import HypnoScript.Diagnostic
import HypnoScript.Message
import HypnoScript.Text.Basic

namespace HypnoScript
namespace Declaration

/-! ## 1. Chains of keywords -/

/-- The rests of a text behind one blank or more at its start, the longest run of blanks first. -/
def afterBlanks : Text → List Text
  | [] => []
  | c :: cs => if Text.isBlank c then afterBlanks cs ++ [cs] else []

theorem length_lt_of_mem_afterBlanks {t r : Text} (h : r ∈ afterBlanks t) :
    r.length < t.length := by
  fun_induction afterBlanks t with
  | case1 => simp at h
  | case2 c cs _ ih =>
    rcases List.mem_append.1 h with h | h
    · exact Nat.lt_succ_of_lt (ih h)
    · simp_all
  | case3 => simp at h

/-- The rests of a text behind one of the keywords and blanks, in the order of preference: by the
order of the keywords, then by the number of blanks. -/
def afterKeyword (keywords : List Text) (t : Text) : List Text :=
  keywords.flatMap fun k => ((Text.afterStart? k t).map afterBlanks).getD []

theorem length_lt_of_mem_afterKeyword {keywords : List Text} {t r : Text}
    (h : r ∈ afterKeyword keywords t) : r.length < t.length := by
  obtain ⟨k, -, hk⟩ := List.mem_flatMap.1 h
  cases hs : Text.afterStart? k t with
  | none => simp [hs] at hk
  | some s =>
    simp only [hs, Option.map_some, Option.getD_some] at hk
    have := length_lt_of_mem_afterBlanks hk
    rw [Text.afterStart?_eq_some_iff.1 hs, List.length_append]
    omega

/-- The text from the declared name on, when the text starts with keywords, or none, and a name. -/
def nameAfter (keywords : List Text) (t : Text) : Option Text :=
  ((afterKeyword keywords t).attach.findSome? fun r => nameAfter keywords r.1).or
    (if t.head?.any Text.startsName then some t else none)
termination_by t.length
decreasing_by exact length_lt_of_mem_afterKeyword r.2

/-- The text from the declared name on, when the text starts with a declaration. -/
def declaredAt (keywords : List Text) (t : Text) : Option Text :=
  (afterKeyword keywords t).findSome? (nameAfter keywords)

/-! ## 2. All declarations of a text -/

/-- The order in which keywords are tried: the longer ones first. -/
def tried (keywords : List Text) : List Text :=
  if keywords.isEmpty then [[]] else keywords.mergeSort fun a b => b.length ≤ a.length

/-- The declared names with their offsets, in a text that starts at `offset`; `skip` characters of
the last declaration are still to be passed over. -/
def sitesFrom (keywords : List Text) (offset skip : Nat) (before : Bool) :
    Text → List (Text × Nat)
  | [] => []
  | c :: cs =>
    match skip with
    | skip + 1 => sitesFrom keywords (offset + 1) skip (Text.isWord c) cs
    | 0 =>
      match if Text.atBoundary before (c :: cs) then declaredAt keywords (c :: cs) else none with
      | some rest =>
        let lead := (c :: cs).length - rest.length
        let name := Text.leadingWord rest
        (name, offset + lead) ::
          sitesFrom keywords (offset + 1) (lead + name.length - 1) (Text.isWord c) cs
      | none => sitesFrom keywords (offset + 1) 0 (Text.isWord c) cs

/-- The declared names of the code with their offsets, from the left. -/
def sites (dialect : Dialect) (code : Text) : List (Text × Nat) :=
  sitesFrom (tried dialect.declarationKeywords) 0 0 false code

/-! ## 3. Variables -/

/-- A declared name: where it is declared, and how often it occurs as a whole word. -/
structure Variable where
  name : Text
  declarations : List Nat
  occurrences : Nat
  deriving DecidableEq, Repr

/-- A name is used when it occurs more often than it is declared. -/
def Variable.used (v : Variable) : Bool := v.occurrences > v.declarations.length

/-- The names of some sites, each once, in the order of their first sites. -/
def names : List (Text × Nat) → List Text
  | [] => []
  | (name, _) :: sites => name :: (names sites).filter (· ≠ name)

/-- The variables that the code declares, in the order of their first declarations. -/
def «variables» (dialect : Dialect) (code : Text) : List Variable :=
  let found := sites dialect code
  (names found).map fun name =>
    { name
      declarations := (found.filter (·.1 = name)).map (·.2)
      occurrences := (Text.wordOffsets name code).length }

/-- A hint at every declaration of a variable that is not used. -/
def check (dialect : Dialect) (w : Wording) (d : Document) : List Diagnostic :=
  («variables» dialect d.code).flatMap fun v =>
    if v.used then []
    else v.declarations.map fun (offset : Nat) =>
      { range := d.spanAt offset v.name.length
        message := Message.withName (w .unusedVariable) v.name
        severity := .hint
        rule := some .unusedVariable }

end Declaration
end HypnoScript
