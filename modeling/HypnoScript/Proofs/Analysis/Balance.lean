/-
# Balanced brackets

Brackets are balanced when reading them with a stack of open ones never meets a closer that does not
fit, and leaves nothing open.  This is a fold over the tokens (`Bracket.openBehind`), so tokens can
be taken apart and be read one part after the other, each part on the stack that the one before it
leaves behind (`openBehind_append`), and brackets further down on the stack are not seen by a part
that gets along without them (`openBehind_below`).

The analysis reports no bracket just when they are balanced (`forall_mem_analyze_iff_balanced`).
-/
import HypnoScript.Proofs.Analysis.Tokens
import HypnoScript.Proofs.QuickFix.Document

namespace HypnoScript
namespace Bracket

open Text (tokens)

variable {α : Type}

/-! ## 1. Reading tokens with a stack -/

/-- The open brackets below the one that a closer fits. -/
def close (c : Char) : List Char → Option (List Char)
  | [] => none
  | opener :: stack => if closer? opener = some c then some stack else none

/-- The open brackets behind one token more, if it fits. -/
def step (stack : List Char) : Token → Option (List Char)
  | .word _ => some stack
  | .sign c =>
    if isOpener c then some (c :: stack) else if isCloser c then close c stack else some stack

/-- The open brackets behind some tokens, if every closer fits. -/
def openBehind (stack : List Char) (ts : List Token) : Option (List Char) := ts.foldlM step stack

/-- Every bracket has its partner. -/
def Balanced (ts : List Token) : Prop := openBehind [] ts = some []

instance (ts : List Token) : Decidable (Balanced ts) :=
  inferInstanceAs (Decidable (openBehind [] ts = some []))

@[simp] theorem openBehind_nil (stack : List Char) : openBehind stack [] = some stack := rfl

@[simp] theorem openBehind_cons (stack : List Char) (t : Token) (ts : List Token) :
    openBehind stack (t :: ts) = (step stack t).bind (openBehind · ts) := rfl

/-- **Tokens are read one part after the other.** -/
theorem openBehind_append (stack : List Char) (ts us : List Token) :
    openBehind stack (ts ++ us) = (openBehind stack ts).bind (openBehind · us) := by
  rw [openBehind, List.foldlM_append]
  rfl

theorem close_below {c : Char} {stack stack' : List Char} (h : close c stack = some stack')
    (below : List Char) : close c (stack ++ below) = some (stack' ++ below) := by
  cases stack with
  | nil => exact absurd h (by simp [close])
  | cons opener stack =>
    rw [close] at h
    rw [List.cons_append, close]
    split at h
    · rw [if_pos ‹_›, Option.some.inj h]
    · exact absurd h (by simp)

theorem step_below {stack stack' : List Char} {t : Token} (h : step stack t = some stack')
    (below : List Char) : step (stack ++ below) t = some (stack' ++ below) := by
  cases t with
  | word w => exact congrArg (fun s => some (s ++ below)) (Option.some.inj h)
  | sign c =>
    rw [step] at h ⊢
    split at h
    · rw [if_pos ‹_›, ← Option.some.inj h, List.cons_append]
    · rw [if_neg ‹_›]
      split at h
      · rw [if_pos ‹_›, close_below h]
      · rw [if_neg ‹_›, Option.some.inj h]

/-- **Brackets further down are not seen** by tokens that get along without them: a closer only
looks at the topmost bracket, and takes off nothing but that. -/
theorem openBehind_below {ts : List Token} : ∀ {stack stack' : List Char},
    openBehind stack ts = some stack' → ∀ below : List Char,
      openBehind (stack ++ below) ts = some (stack' ++ below) := by
  induction ts with
  | nil =>
    intro stack stack' h below
    rw [openBehind_nil] at h ⊢
    rw [Option.some.inj h]
  | cons t ts ih =>
    intro stack stack' h below
    rw [openBehind_cons] at h ⊢
    obtain ⟨s, hs, hts⟩ := Option.bind_eq_some_iff.mp h
    rw [step_below hs below]
    exact ih hts below

/-- **Balanced brackets can be left out.** -/
theorem Balanced.openBehind_append {ts : List Token} (h : Balanced ts) (stack : List Char)
    (us : List Token) : openBehind stack (ts ++ us) = openBehind stack us := by
  have hts : openBehind stack ts = some stack := openBehind_below h stack
  rw [Bracket.openBehind_append, hts, Option.bind_some]

/-- A sign that is no bracket can be left out. -/
theorem openBehind_filter {c : Char} (h : isOpener c = false ∧ isCloser c = false)
    (ts : List Token) : ∀ stack : List Char,
      openBehind stack (ts.filter (· ≠ .sign c)) = openBehind stack ts := by
  induction ts with
  | nil => exact fun _ => rfl
  | cons t ts ih =>
    intro stack
    by_cases ht : t = .sign c
    · have hstep : step stack (.sign c) = some stack := by simp [step, h.1, h.2]
      rw [List.filter_cons_of_neg (by simp [ht]), ih, openBehind_cons, ht, hstep]
      rfl
    · rw [List.filter_cons_of_pos (by simp [ht]), openBehind_cons, openBehind_cons]
      exact congrArg _ (funext fun s => ih s)

/-! ## 2. What the check reports -/

/-- **No bracket is faulty just when they all fit**, and nothing is left open.  The check goes on
behind a closer that does not fit, so as to report the others too; where there is no such closer,
its stack is that of reading. -/
theorem faultsOf_eq_nil_iff (ts : List (Token × α)) : ∀ stack : List (Char × α),
    faultsOf stack ts = [] ↔ openBehind (stack.map Prod.fst) (ts.map Prod.fst) = some [] := by
  induction ts with
  | nil => intro stack; simp [faultsOf]
  | cons p ts ih =>
    intro stack
    obtain ⟨t, a⟩ := p
    rw [List.map_cons, openBehind_cons]
    cases t with
    | word w => exact ih stack
    | sign c =>
      rw [faultsOf.eq_def, step]
      dsimp only
      split
      · exact ih ((c, a) :: stack)
      · split
        · cases stack with
          | nil => simp [close]
          | cons p stack =>
            rw [List.map_cons, close]
            dsimp only
            split
            · exact ih stack
            · simp
        · exact ih stack

theorem faults_eq_nil_iff (t : Text) : faults t = [] ↔ Balanced (tokens t) := by
  rw [faults_eq, faultsOf_eq_nil_iff, Text.map_fst_placed]
  rfl

/-- The diagnostics about brackets are those of the bracket check. -/
theorem mem_check_iff {dialect : Dialect} {w : Wording} {t : Text} {g : Diagnostic} :
    g ∈ check w (.ofText t) ↔
      g ∈ analyze dialect w t ∧ g.rule = some .unbalancedBracket := by
  rw [mem_analyze_iff]
  exact ⟨fun h => ⟨h, (mem_check h).1⟩, And.left⟩

/-- **The analysis finds no faulty bracket just when the brackets of the code are balanced.**  Only
the bracket check reports by this rule, and it looks at the masked copy alone. -/
theorem forall_mem_analyze_iff_balanced (dialect : Dialect) (w : Wording) (t : Text) :
    (∀ g ∈ analyze dialect w t, g.rule ≠ some .unbalancedBracket) ↔
      Balanced (tokens (masked t)) := by
  have hcode : (Document.ofText t).code = masked t := rfl
  rw [← faults_eq_nil_iff, ← List.map_eq_nil_iff, ← hcode]
  constructor
  · intro h
    refine List.eq_nil_iff_forall_not_mem.mpr fun g hg => ?_
    have hg : g ∈ analyze dialect w t ∧ g.rule = some .unbalancedBracket := mem_check_iff.mp hg
    exact h g hg.1 hg.2
  · intro h g hg hrule
    have hmem : g ∈ check w (.ofText t) := mem_check_iff.mpr ⟨hg, hrule⟩
    rw [check, h] at hmem
    exact List.not_mem_nil hmem

end Bracket
end HypnoScript
