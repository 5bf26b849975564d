/-
# Loosely typed values

What a request, a tool call or a data file brings in before it has been checked: the values of JSON.
Whole numbers and decimal fractions are kept apart, since they are not told apart by their size.
-/
import HypnoScript.Json.Decimal

namespace HypnoScript
namespace Json

/-- A value of JSON. -/
inductive Value where
  | null
  | bool (b : Bool)
  | int (n : Int)
  /-- A number written with a point or an exponent. -/
  | float (d : Decimal)
  /-- One of the two infinities, or no number at all. -/
  | nonFinite
  | string (s : String)
  | list (xs : List Value)
  | object (fields : List (String × Value))

namespace Value

/-- The name of the kind of a value. -/
def kindName : Value → String
  | .null => "NoneType"
  | .bool _ => "bool"
  | .int _ => "int"
  | .float _ | .nonFinite => "float"
  | .string _ => "str"
  | .list _ => "list"
  | .object _ => "dict"

/-- Whether a value stands for nothing: null, a false, a zero, or something empty. -/
def isNothing : Value → Bool
  | .null => true
  | .bool b => !b
  | .int n => n == 0
  | .float d => d.nearest == .whole 0
  | .nonFinite => false
  | .string s => s.isEmpty
  | .list xs => xs.isEmpty
  | .object fs => fs.isEmpty

end Value

/-- The value of a field.  Of several fields of one name the last counts. -/
def field? (fields : List (String × Value)) (name : String) : Option Value :=
  (fields.reverse.find? (·.1 == name)).map (·.2)

theorem mem_of_field? {fields : List (String × Value)} {name : String} {v : Value}
    (h : field? fields name = some v) : ∃ k, (k, v) ∈ fields := by
  obtain ⟨⟨k, w⟩, hw, rfl⟩ := Option.map_eq_some_iff.1 h
  exact ⟨k, by simpa using List.mem_of_find?_eq_some hw⟩

end Json
end HypnoScript
