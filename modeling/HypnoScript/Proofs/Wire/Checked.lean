/-
# What a check lets through

A check succeeds with a value exactly when its parts succeed with the parts of that value.  Here
this is said once for every way to put checks together, so that what a check of a whole record
accepts can be read off its fields.

The faults of a check that fails are not looked at here.
-/
import Mathlib.Data.List.Forall2
import HypnoScript.Wire.Checked

namespace HypnoScript

open Json (Value)

/-! ## 1. Fields -/

namespace Json

theorem field?_nil (name : String) : field? [] name = none := rfl

/-- Of several fields of one name the last counts. -/
theorem field?_cons (k : String) (v : Value) (fields : List (String × Value)) (name : String) :
    field? ((k, v) :: fields) name =
      (field? fields name).or (if k == name then some v else none) := by
  unfold field?
  rw [List.reverse_cons, List.find?_append, Option.map_or]
  cases hk : k == name with
  | true => simp [hk]
  | false => simp [hk]

end Json

namespace Wire

variable {α β : Type}

/-! ## 2. Checks, put together -/

namespace Checked

theorem error_ne_ok {es : List Fault} {a : α} : (Except.error es : Checked α) ≠ Except.ok a := by
  intro h
  cases h

theorem under_eq_ok_iff {step : Step} {x : Checked α} {a : α} :
    under step x = Except.ok a ↔ x = Except.ok a := by
  cases x with
  | ok b => exact Iff.rfl
  | error es => exact iff_of_false error_ne_ok error_ne_ok

theorem andThen_eq_ok_iff {x : Checked α} {f : α → Checked β} {b : β} :
    x.andThen f = Except.ok b ↔ ∃ a, x = Except.ok a ∧ f a = Except.ok b := by
  cases x with
  | ok a =>
    constructor
    · intro h
      exact ⟨a, rfl, h⟩
    · rintro ⟨a', ha, h⟩
      obtain rfl := Except.ok.inj ha
      exact h
  | error es =>
    refine iff_of_false error_ne_ok ?_
    rintro ⟨a, ha, -⟩
    cases ha

theorem seq_eq_ok_iff {f : Checked (α → β)} {x : Checked α} {b : β} :
    f <*> x = Except.ok b ↔ ∃ g a, f = Except.ok g ∧ x = Except.ok a ∧ g a = b := by
  constructor
  · intro h
    cases f with
    | ok g =>
      cases x with
      | ok a => exact ⟨g, a, rfl, rfl, Except.ok.inj h⟩
      | error es => cases h
    | error es => cases x <;> cases h
  · rintro ⟨g, a, rfl, rfl, rfl⟩
    rfl

theorem map_eq_ok_iff {f : α → β} {x : Checked α} {b : β} :
    f <$> x = Except.ok b ↔ ∃ a, x = Except.ok a ∧ f a = b := by
  constructor
  · intro h
    cases x with
    | ok a => exact ⟨a, rfl, Except.ok.inj h⟩
    | error es => cases h
  · rintro ⟨a, rfl, rfl⟩
    rfl

end Checked

/-! ## 3. Objects and lists -/

section Parts

variable {read : Value → Checked α} {fields : List (String × Value)} {name : String}

theorem fieldsOf_eq_ok_iff {v : Value} : fieldsOf v = Except.ok fields ↔ v = .object fields := by
  cases v with
  | object fs => exact ⟨fun h => by cases h; rfl, fun h => by cases h; rfl⟩
  | _ => exact iff_of_false Checked.error_ne_ok (by simp)

/-- A field that has to be there is there, and passes its check. -/
theorem required_eq_ok_iff {a : α} :
    required read fields name = Except.ok a ↔
      ∃ v, Json.field? fields name = some v ∧ read v = Except.ok a := by
  rw [required, Checked.under_eq_ok_iff]
  cases Json.field? fields name with
  | some v => simp
  | none => exact iff_of_false Checked.error_ne_ok (by simp)

/-- A field that may be left out is there and passes its check, or is left out. -/
theorem optional_eq_ok_iff {default a : α} :
    optional read default fields name = Except.ok a ↔
      (∃ v, Json.field? fields name = some v ∧ read v = Except.ok a) ∨
        Json.field? fields name = none ∧ default = a := by
  rw [optional]
  cases Json.field? fields name with
  | some v => simp [Checked.under_eq_ok_iff]
  | none => simpa using ⟨fun h => Except.ok.inj h, fun h => congrArg Except.ok h⟩

/-- The items of a list pass the check one by one, whatever the number of the first. -/
theorem itemsFrom_eq_ok_iff {vs : List Value} : ∀ {n : Nat} {as : List α},
    itemsFrom read n vs = Except.ok as ↔ List.Forall₂ (fun v a => read v = Except.ok a) vs as := by
  induction vs with
  | nil =>
    intro n as
    rw [List.forall₂_nil_left_iff]
    exact ⟨fun h => (Except.ok.inj h).symm, fun h => congrArg Except.ok h.symm⟩
  | cons v vs ih =>
    intro n as
    rw [itemsFrom, Checked.seq_eq_ok_iff, List.forall₂_cons_left_iff]
    constructor
    · rintro ⟨g, as, hg, has, rfl⟩
      obtain ⟨a, ha, rfl⟩ := Checked.map_eq_ok_iff.mp hg
      exact ⟨a, as, Checked.under_eq_ok_iff.mp ha, ih.mp has, rfl⟩
    · rintro ⟨a, as, ha, has, rfl⟩
      exact ⟨List.cons a, as,
        Checked.map_eq_ok_iff.mpr ⟨a, Checked.under_eq_ok_iff.mpr ha, rfl⟩, ih.mpr has, rfl⟩

theorem listOf_eq_ok_iff {kind : FaultKind} {v : Value} {as : List α} :
    listOf read kind v = Except.ok as ↔
      ∃ vs, v = .list vs ∧ List.Forall₂ (fun v a => read v = Except.ok a) vs as := by
  cases v with
  | list vs => simp [listOf, itemsFrom_eq_ok_iff]
  | _ => exact iff_of_false Checked.error_ne_ok (by simp)

end Parts

end Wire
end HypnoScript
