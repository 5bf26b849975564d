/-
# A framework for the service

A framework that does what the service asks for and hardly more.  Bodies are read as JSON;
parameters of the query are given, and of several with one name the last counts.  A request that is
not handed on is answered in the usual ways: its path is not known, or known without the slashes at
its end, the method is not one of its path, or what the route asks for is missing or faulty, and
then the faults are listed.
-/
import HypnoScript.Json.Reader
import HypnoScript.Service

namespace HypnoScript
namespace Service

open Json (Value)
open Wire

/-! ## 1. Requests -/

/-- A request: a method, a path, the parameters of the query and the text of the body. -/
structure Request where
  method : String
  path : String
  query : List (String × String) := []
  body : Text := []

/-- The text of a body behind its byte order mark, if it starts with one. -/
def withoutMark : Text → Text
  | '\ufeff' :: t => t
  | t => t

/-- The fields of a body. -/
def bodyFields (body : Text) : Checked (List (String × Value)) :=
  if body.isEmpty then .fault .missing
  else match Json.parse (withoutMark body) with
    | .error offset => Checked.under (.index offset) (.fault .malformed)
    | .ok (.object fields) => .ok fields
    | .ok _ => .fault .notFields

/-- What is read in a request. -/
def Request.input (r : Request) : Input where
  fields := bodyFields r.body
  parameter? name := (r.query.reverse.find? (·.1 == name)).map (·.2)

/-! ## 2. Responses without a call -/

/-- A response that says why there is no better one. -/
def refusal (status : Nat) (detail : String) : Response :=
  ⟨status, .object [("detail", .string detail)]⟩

/-- The response to a request with faults. -/
def faulty (faults : List Fault) : Response := ⟨422, .list (faults.map Fault.toValue)⟩

/-- A path without the slashes at its end. -/
def withoutSlashes (path : String) : String :=
  String.ofList (Text.dropTrailing (· == '/') path.toList)

/-- The response to a request that takes no route. -/
def astray (r : Request) : Response :=
  if routes.any (·.path == r.path) then refusal 405 "Method Not Allowed"
  else if routes.any (·.path == withoutSlashes r.path) then ⟨307, .null⟩
  else refusal 404 "Not Found"

/-! ## 3. The framework -/

/-- The route that a request takes. -/
def route? (r : Request) : Option Route :=
  routes.find? fun route => route.method == r.method && route.path == r.path

/-- No two routes are registered for the same method and path. -/
theorem route?_eq_some_iff {r : Request} {route : Route} : route? r = some route ↔
    route ∈ routes ∧ route.method = r.method ∧ route.path = r.path := by
  constructor
  · intro h
    have htakes := List.find?_some h
    simp only [Bool.and_eq_true, beq_iff_eq] at htakes
    exact ⟨List.mem_of_find?_eq_some h, htakes⟩
  · rintro ⟨hmem, hmethod, hpath⟩
    unfold route?
    rw [← hmethod, ← hpath]
    simp only [routes, List.mem_cons, List.not_mem_nil, or_false] at hmem
    rcases hmem with rfl | rfl | rfl | rfl | rfl | rfl | rfl | rfl <;> rfl

/-- The call that a request is handed on as, or the response that it gets without one. -/
def receive (r : Request) : Except Response Call :=
  match route? r with
  | none => .error (astray r)
  | some route =>
    match route.read r.input with
    | .ok call => .ok call
    | .error faults => .error (faulty faults)

theorem receive_eq_ok_iff {r : Request} {call : Call} : receive r = .ok call ↔
    ∃ route ∈ routes, route.method = r.method ∧ route.path = r.path ∧
      route.read r.input = Except.ok call := by
  constructor
  · intro h
    unfold receive at h
    split at h
    · cases h
    · rename_i route hroute
      obtain ⟨hmem, hmethod, hpath⟩ := route?_eq_some_iff.mp hroute
      split at h
      · rename_i hread
        cases h
        exact ⟨route, hmem, hmethod, hpath, hread⟩
      · cases h
  · rintro ⟨route, hmem, hmethod, hpath, hread⟩
    unfold receive
    rw [route?_eq_some_iff.mpr ⟨hmem, hmethod, hpath⟩]
    simp only [hread]

theorem status_of_refused {r : Request} {response : Response} (h : receive r = .error response)
    (htakes : ∃ route ∈ routes, route.method = r.method ∧ route.path = r.path) :
    response.status ≠ 200 := by
  obtain ⟨route, hroute⟩ := htakes
  simp only [receive, route?_eq_some_iff.mpr hroute] at h
  split at h
  · cases h
  · cases h
    exact (by decide : 422 ≠ 200)

/-- The response with what has come of a call. -/
def deliver : Except Failure Reply → Response
  | .ok reply => reply.response
  | .error _ => refusal 500 "Internal Server Error"

/-- The framework. -/
def Framework.standard : Framework Request where
  method := Request.method
  path := Request.path
  read := Request.input
  receive := Service.receive
  deliver _ := Service.deliver
  receive_eq_ok_iff _ _ := Service.receive_eq_ok_iff
  status_of_refused _ _ := Service.status_of_refused
  status_of_failure _ _ := (by decide : 500 ≠ 200)

theorem Framework.writesReplies_standard : Framework.standard.WritesReplies := fun _ _ => rfl

end Service
end HypnoScript
