/-
# A session with the service

What the service answers about its collection is told by the exchanges before.  Most of them do
nothing to it; a good response to an analysis of a named document publishes the document, and a good
response to a deletion takes one document out, or all of them (`Service.operation?`).

The framework in front of the service is any one with the laws that the service counts on.  So the
way leads through the calls: a call leaves the collection as one operation does
(`Service.handle_eq_after`), and so a whole session leaves it as what has been asked for does
(`Service.after_eq_asked`).  This holds even of a framework that cannot write a response.  One that
writes all replies shows from outside what has been asked for (`Service.operation?_respond`), and
then every response is one about the history of the session (`Service.session_tells_history`).
-/
import HypnoScript.Proofs.Collection.History
import HypnoScript.Proofs.Wire.Checked
import HypnoScript.Service.Standard
import Mathlib.Data.List.Nodup

namespace HypnoScript

open Json (Value)
open Wire

/-! ## 1. What a check lets through -/

namespace Wire

variable {fields : List (String × Value)} {name : String}

/-- The string in a field, if there is one. -/
def stringField? (fields : List (String × Value)) (name : String) : Option String :=
  match Json.field? fields name with
  | some (.string s) => some s
  | _ => none

/-- A text that has to be there is the string of its field. -/
theorem stringField?_of_required {t : Text} (h : required text fields name = Except.ok t) :
    stringField? fields name = some (String.ofList t) := by
  unfold required at h
  have h := Checked.under_eq_ok_iff.mp h
  unfold stringField?
  cases hv : Json.field? fields name with
  | none =>
    rw [hv] at h
    cases h
  | some v =>
    rw [hv] at h
    cases v with
    | string s =>
      obtain ⟨s', hs', rfl⟩ := Checked.map_eq_ok_iff.mp h
      cases hs'
      rw [String.ofList_toList]
    | _ => cases h

/-- A string that may be left out or null is that of its field, and else there is none. -/
theorem stringField?_of_optional {s? : Option String}
    (h : optional (nullable string) none fields name = Except.ok s?) :
    stringField? fields name = s? ∧ (s? = none ↔
      Json.field? fields name = none ∨ Json.field? fields name = some .null) := by
  unfold optional at h
  unfold stringField?
  cases hv : Json.field? fields name with
  | none =>
    rw [hv] at h
    cases h
    exact ⟨rfl, iff_of_true rfl (Or.inl rfl)⟩
  | some v =>
    rw [hv] at h
    have h := Checked.under_eq_ok_iff.mp h
    cases v with
    | null =>
      cases h
      exact ⟨rfl, iff_of_true rfl (Or.inr rfl)⟩
    | string s =>
      cases h
      simp
    | _ => cases h

end Wire

namespace Service

open Collection (Operation Live LastWritten)

/-! ## 2. What a call does -/

/-- What a call does to the collection. -/
def Call.operation? (s : Settings) : Call → Option Operation
  | .analyze b => b.uri.map fun uri =>
    .publish uri .standard (s.wording b.locale) (.string (String.ofList b.text))
  | .clear (some uri) => some (.delete uri)
  | .clear none => some .clear
  | _ => none

/-- **What one call leaves behind** is what it does, whatever it replies. -/
theorem handle_eq_after (s : Settings) (c : Collection) (call : Call) :
    (handle s c call).2 = c.after (call.operation? s).toList := by
  cases call with
  | health | diagnostics | format | outline | fixes => rfl
  | clear uri? => cases uri? <;> rfl
  | analyze b =>
    obtain ⟨text, uri?, locale⟩ := b
    cases uri? with
    | none => rfl
    | some uri =>
      show c.set uri (analyze .standard (s.wording locale) text) =
        c.set uri (analyze .standard (s.wording locale) (String.ofList text).toList)
      rw [String.toList_ofList]

/-- An analysis never breaks off. -/
theorem exists_reply_analyze (s : Settings) (c : Collection) (b : AnalyzeBody) :
    ∃ reply, (handle s c (.analyze b)).1 = .ok reply := by
  obtain ⟨text, uri?, locale⟩ := b
  cases uri? <;> exact ⟨_, rfl⟩

/-- Neither does a deletion. -/
theorem exists_reply_clear (s : Settings) (c : Collection) (uri? : Option String) :
    ∃ reply, (handle s c (.clear uri?)).1 = .ok reply := by
  cases uri? <;> exact ⟨_, rfl⟩

section Requests

variable {Request : Type} {F : Framework Request} {s : Settings} {c : Collection} {r : Request}

/-! ## 3. What is asked for -/

/-- What a request does to the collection when it is handed on. -/
def asked? (F : Framework Request) (s : Settings) (r : Request) : Option Operation :=
  match F.receive r with
  | .ok call => call.operation? s
  | .error _ => none

/-- The collection behind a session. -/
def after (F : Framework Request) (s : Settings) (c : Collection) (rs : List Request) :
    Collection :=
  rs.foldl (fun c r => (respond F s c r).2) c

theorem respond_eq_after (F : Framework Request) (s : Settings) (c : Collection) (r : Request) :
    (respond F s c r).2 = c.after (asked? F s r).toList := by
  unfold respond asked?
  cases F.receive r with
  | error response => rfl
  | ok call => exact handle_eq_after s c call

/-- **What a session leaves behind** is what has been asked for, whatever becomes of the
responses. -/
theorem after_eq_asked (F : Framework Request) (s : Settings) (c : Collection)
    (rs : List Request) : after F s c rs = c.after (rs.filterMap (asked? F s)) := by
  induction rs generalizing c with
  | nil => rfl
  | cons r rs ih =>
    have hrest : after F s c (r :: rs) = after F s (respond F s c r).2 rs := rfl
    rw [hrest, ih, respond_eq_after, List.filterMap_cons]
    cases asked? F s r with
    | none => rfl
    | some op => rfl

/-! ## 4. The routes that know the collection -/

theorem nodup_routes : (routes.map fun route => (route.method, route.path)).Nodup := by decide

/-- A request that takes a route is handed on as what this route makes of it, since no other is
registered for the same method and path. -/
theorem receive_eq_ok_iff_of_takes {route : Route} (hroute : route ∈ routes)
    (h : F.Takes r route.method route.path) {call : Call} :
    F.receive r = .ok call ↔ route.read (F.read r) = Except.ok call := by
  rw [F.receive_eq_ok_iff]
  constructor
  · rintro ⟨other, hother, hmethod, hpath, hread⟩
    obtain rfl := List.inj_on_of_nodup_map nodup_routes hother hroute
      (Prod.ext (hmethod.trans h.1) (hpath.trans h.2))
    exact hread
  · intro hread
    exact ⟨route, hroute, h.1.symm, h.2.symm, hread⟩

/-- An analysis is asked for with a body that passes the checks. -/
theorem receive_analyze_iff (h : F.Takes r "POST" "/analyze") {call : Call} :
    F.receive r = .ok call ↔ ∃ fields b, (F.read r).fields = Except.ok fields ∧
      AnalyzeBody.read fields = Except.ok b ∧ .analyze b = call := by
  have hroute : analyzeRoute ∈ routes := by simp [routes]
  refine (receive_eq_ok_iff_of_takes hroute h).trans (Checked.map_eq_ok_iff.trans ?_)
  simp only [Input.body, Checked.under_eq_ok_iff, Checked.andThen_eq_ok_iff]
  constructor
  · rintro ⟨b, ⟨fields, hfields, hb⟩, hcall⟩
    exact ⟨fields, b, hfields, hb, hcall⟩
  · rintro ⟨fields, b, hfields, hb, hcall⟩
    exact ⟨b, ⟨fields, hfields, hb⟩, hcall⟩

/-- Diagnostics are asked for with the name of a document. -/
theorem receive_diagnostics_iff (h : F.Takes r "GET" "/diagnostics") {call : Call} :
    F.receive r = .ok call ↔ ∃ uri, (F.read r).parameter? "uri" = some uri ∧
      .diagnostics uri = call := by
  have hroute : diagnosticsRoute ∈ routes := by simp [routes]
  have hparameter (uri : String) : (F.read r).parameter "uri" = Except.ok uri ↔
      (F.read r).parameter? "uri" = some uri := by
    unfold Input.parameter
    cases (F.read r).parameter? "uri" with
    | some v =>
      constructor
      · intro hv
        rw [Except.ok.inj hv]
      · intro hv
        rw [Option.some.inj hv]
        rfl
    | none => exact iff_of_false Checked.error_ne_ok (by simp)
  refine (receive_eq_ok_iff_of_takes hroute h).trans (Checked.map_eq_ok_iff.trans ?_)
  simp only [hparameter]

/-- A deletion asks for nothing. -/
theorem receive_clear (h : F.Takes r "DELETE" "/diagnostics") :
    F.receive r = .ok (.clear ((F.read r).parameter? "uri")) := by
  have hroute : clearRoute ∈ routes := by simp [routes]
  exact (receive_eq_ok_iff_of_takes hroute h).mpr rfl

/-- The other routes ask for nothing that the collection knows. -/
theorem operation?_eq_none (hanalyze : ¬ F.Takes r "POST" "/analyze")
    (hclear : ¬ F.Takes r "DELETE" "/diagnostics") {call : Call} (h : F.receive r = .ok call) :
    call.operation? s = none := by
  obtain ⟨route, hroute, hmethod, hpath, hread⟩ := (F.receive_eq_ok_iff r call).mp h
  simp only [routes, List.mem_cons, List.not_mem_nil, or_false] at hroute
  rcases hroute with rfl | rfl | rfl | rfl | rfl | rfl | rfl | rfl
  case inr.inr.inl => exact absurd ⟨hmethod.symm, hpath.symm⟩ hanalyze
  case inr.inr.inr.inr.inl => exact absurd ⟨hmethod.symm, hpath.symm⟩ hclear
  · obtain rfl := Except.ok.inj hread
    rfl
  · obtain rfl := Except.ok.inj hread
    rfl
  all_goals
    obtain ⟨a, -, rfl⟩ := Checked.map_eq_ok_iff.mp hread
    rfl

/-! ## 5. Exchanges -/

/-- The publication that a body asks for: that of its text, if it names the document. -/
def publication? (F : Framework Request) (s : Settings) (r : Request) : Option Operation :=
  match (F.read r).fields with
  | .ok fields =>
    match stringField? fields "uri", stringField? fields "text" with
    | some uri, some text =>
      some (.publish uri .standard (s.wording (stringField? fields "locale")) (.string text))
    | _, _ => none
  | .error _ => none

/-- What a request does to the collection when it gets this response.  Only a good response stands
for something that has been done. -/
def operation? (F : Framework Request) (s : Settings) (r : Request) (response : Response) :
    Option Operation :=
  if response.status ≠ 200 then none
  else if F.Takes r "POST" "/analyze" then publication? F s r
  else if F.Takes r "DELETE" "/diagnostics" then
    some (match (F.read r).parameter? "uri" with
      | some uri => .delete uri
      | none => .clear)
  else none

/-- What some requests do to the collection when they get these responses, one after the other. -/
def history (F : Framework Request) (s : Settings) (rs : List Request)
    (responses : List Response) : List Operation :=
  (List.zipWith (operation? F s) rs responses).filterMap id

/-- **A body that passes the checks**: the strings in its fields are what is read, and the document
is not named just when the name is left out or null. -/
theorem AnalyzeBody.of_read {fields : List (String × Value)} {b : AnalyzeBody}
    (h : AnalyzeBody.read fields = Except.ok b) :
    stringField? fields "text" = some (String.ofList b.text) ∧
      stringField? fields "uri" = b.uri ∧
      (b.uri = none ↔ Json.field? fields "uri" = none ∨ Json.field? fields "uri" = some .null) ∧
      stringField? fields "locale" = b.locale := by
  unfold AnalyzeBody.read at h
  obtain ⟨f, locale, hf, hlocale, rfl⟩ := Checked.seq_eq_ok_iff.mp h
  obtain ⟨g, uri, hg, huri, rfl⟩ := Checked.seq_eq_ok_iff.mp hf
  obtain ⟨text, htext, rfl⟩ := Checked.map_eq_ok_iff.mp hg
  obtain ⟨huri, hnone⟩ := stringField?_of_optional huri
  exact ⟨stringField?_of_required htext, huri, hnone, (stringField?_of_optional hlocale).1⟩

/-- The publication that a body asks for which passes the checks. -/
theorem publication?_of_read {fields : List (String × Value)} {b : AnalyzeBody}
    (hfields : (F.read r).fields = Except.ok fields) (h : AnalyzeBody.read fields = Except.ok b) :
    publication? F s r = (Call.analyze b).operation? s := by
  obtain ⟨htext, huri, -, hlocale⟩ := AnalyzeBody.of_read h
  unfold publication?
  rw [hfields]
  simp only [htext, huri, hlocale, Call.operation?]
  cases b.uri <;> rfl

theorem status_response (reply : Reply) : reply.response.status = 200 := rfl

theorem respond_of_refused {response : Response} (h : F.receive r = .error response) :
    respond F s c r = (response, c) := by
  simp only [respond, h]

theorem respond_of_call {call : Call} (h : F.receive r = .ok call) :
    respond F s c r = (F.deliver r (handle s c call).1, (handle s c call).2) := by
  simp only [respond, h]

/-- The response to a call that does not break off is a good one. -/
theorem respond_of_reply (hF : F.WritesReplies) {call : Call} (h : F.receive r = .ok call)
    {reply : Reply} (hreply : (handle s c call).1 = .ok reply) :
    (respond F s c r).1 = reply.response := by
  rw [respond_of_call h, hreply]
  exact hF r reply

/-- **What an exchange stands for is what has been asked for.**  Here the laws of the framework come
in: a request to one of the routes is refused with some other response than a good one, and a call
that does something to the collection never breaks off, so that its response is good. -/
theorem operation?_respond (hF : F.WritesReplies) (s : Settings) (c : Collection) (r : Request) :
    operation? F s r (respond F s c r).1 = asked? F s r := by
  unfold operation? asked?
  cases hreceive : F.receive r with
  | error response =>
    have hrefused : (∃ route ∈ routes, F.Takes r route.method route.path) →
        response.status ≠ 200 := by
      rintro ⟨route, hroute, h⟩
      exact F.status_of_refused r response hreceive ⟨route, hroute, h.1.symm, h.2.symm⟩
    rw [respond_of_refused hreceive]
    dsimp only
    split
    · rfl
    · rename_i hstatus
      have hanalyze : ¬ F.Takes r "POST" "/analyze" := fun h =>
        hstatus (hrefused ⟨analyzeRoute, by simp [routes], h⟩)
      have hclear : ¬ F.Takes r "DELETE" "/diagnostics" := fun h =>
        hstatus (hrefused ⟨clearRoute, by simp [routes], h⟩)
      rw [if_neg hanalyze, if_neg hclear]
  | ok call =>
    dsimp only
    by_cases hanalyze : F.Takes r "POST" "/analyze"
    · obtain ⟨fields, b, hfields, hb, rfl⟩ := (receive_analyze_iff hanalyze).mp hreceive
      obtain ⟨reply, hreply⟩ := exists_reply_analyze s c b
      rw [respond_of_reply hF hreceive hreply, if_neg (not_not_intro (status_response reply)),
        if_pos hanalyze]
      exact publication?_of_read hfields hb
    · by_cases hclear : F.Takes r "DELETE" "/diagnostics"
      · obtain rfl := Except.ok.inj (hreceive.symm.trans (receive_clear hclear))
        obtain ⟨reply, hreply⟩ := exists_reply_clear s c ((F.read r).parameter? "uri")
        rw [respond_of_reply hF hreceive hreply, if_neg (not_not_intro (status_response reply)),
          if_neg hanalyze, if_pos hclear]
        cases (F.read r).parameter? "uri" <;> rfl
      · rw [if_neg hanalyze, if_neg hclear, operation?_eq_none hanalyze hclear hreceive, ite_self]

/-! ## 6. Sessions -/

theorem session_cons (F : Framework Request) (s : Settings) (c : Collection) (r : Request)
    (rs : List Request) :
    session F s c (r :: rs) = (respond F s c r).1 :: session F s (respond F s c r).2 rs := rfl

theorem session_append (F : Framework Request) (s : Settings) (c : Collection)
    (rs rs' : List Request) :
    session F s c (rs ++ rs') = session F s c rs ++ session F s (after F s c rs) rs' := by
  induction rs generalizing c with
  | nil => rfl
  | cons r rs ih =>
    rw [List.cons_append, session_cons, session_cons, ih, List.cons_append]
    rfl

/-- **The history of a session** is what has been asked for in it. -/
theorem history_session (hF : F.WritesReplies) (s : Settings) (c : Collection)
    (rs : List Request) :
    history F s rs (session F s c rs) = rs.filterMap (asked? F s) := by
  induction rs generalizing c with
  | nil => rfl
  | cons r rs ih =>
    have hcons : history F s (r :: rs) (session F s c (r :: rs)) =
        (operation? F s r (respond F s c r).1).toList ++
          history F s rs (session F s (respond F s c r).2 rs) := by
      unfold history
      rw [session_cons, List.zipWith_cons_cons]
      cases operation? F s r (respond F s c r).1 <;> rfl
    rw [hcons, ih, operation?_respond hF, List.filterMap_cons]
    cases asked? F s r <;> rfl

/-! ## 7. What the responses tell -/

/-- What a request is answered about the collection, after a history. -/
structure Tells (F : Framework Request) (past : List Operation) (r : Request)
    (response : Response) : Prop where
  /-- The diagnostics of a live document are shown as they were written last, and none of others. -/
  shown : F.Takes r "GET" "/diagnostics" → ∀ uri, (F.read r).parameter? "uri" = some uri →
    ∃ gs, response = (Reply.diagnostics (some uri) gs).response ∧
      (Live past uri → LastWritten past uri gs) ∧ (¬ Live past uri → gs = [])
  /-- No diagnostics are shown of no document. -/
  unnamed : F.Takes r "GET" "/diagnostics" → (F.read r).parameter? "uri" = none →
    response.status ≠ 200
  /-- The name of a document is given back when it is deleted, if the document is live. -/
  deleted : F.Takes r "DELETE" "/diagnostics" → ∀ uri, (F.read r).parameter? "uri" = some uri →
    (Live past uri → response = (Reply.cleared [uri]).response) ∧
      (¬ Live past uri → response = (Reply.cleared []).response)
  /-- When all documents are deleted, the names of the live ones are given back, each once and in
  the order of their code points. -/
  cleared : F.Takes r "DELETE" "/diagnostics" → (F.read r).parameter? "uri" = none →
    ∃ us, response = (Reply.cleared us).response ∧ (∀ v, v ∈ us ↔ Live past v) ∧
      us.Pairwise fun a b => a.toList.map Char.toNat < b.toList.map Char.toNat

/-- Every response is one about the history in front of it. -/
theorem tells_respond (hF : F.WritesReplies) (s : Settings) (past : List Operation) (r : Request) :
    Tells F past r (respond F s (Collection.empty.after past) r).1 where
  shown := by
    intro h uri huri
    have hreceive := (receive_diagnostics_iff h).mpr ⟨uri, huri, rfl⟩
    exact ⟨_, respond_of_reply hF hreceive rfl, Collection.get_after_of_live,
      Collection.get_after_of_not_live⟩
  unnamed := by
    intro h huri
    cases hreceive : F.receive r with
    | ok call =>
      obtain ⟨uri, huri', -⟩ := (receive_diagnostics_iff h).mp hreceive
      cases huri.symm.trans huri'
    | error response =>
      rw [respond_of_refused hreceive]
      exact F.status_of_refused r response hreceive
        ⟨diagnosticsRoute, by simp [routes], h.1.symm, h.2.symm⟩
  deleted := by
    intro h uri huri
    have hreceive := receive_clear h
    rw [huri] at hreceive
    rw [respond_of_reply hF hreceive rfl]
    have hlive : (Collection.empty.after past).contains uri = true ↔ Live past uri := by
      rw [Collection.contains_iff, Collection.isSome_lookup_after_iff]
    constructor
    · intro h
      rw [if_pos (hlive.mpr h)]
    · intro h
      rw [if_neg (mt hlive.mp h)]
  cleared := by
    intro h huri
    have hreceive := receive_clear h
    rw [huri] at hreceive
    refine ⟨_, respond_of_reply hF hreceive rfl, ?_,
      (Collection.distinct_empty.after past).pairwise_uris⟩
    intro v
    rw [Collection.mem_uris, Collection.isSome_lookup_after_iff]

end Requests

end Service
end HypnoScript
