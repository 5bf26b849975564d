/-
# The service

What the analysis service does with a call, and how calls come in as requests.  A session starts
with an empty collection; every call is carried out on the collection as it is, and leaves behind
the collection for the next one.  Only an analysis with a document's name stores anything.

The service stands behind a web framework, with which it registers its routes.  The framework reads
requests, hands them on as calls, and writes what comes back as a response; what it does beyond that
is its own matter, and so it is a parameter here (`Framework`).  Its laws are what the service
counts on: a request is handed on to the route that it takes, and to no other, if it brings along
what the route asks for; else it is refused.
-/
import HypnoScript.Collection
import HypnoScript.Layout
import HypnoScript.Outline
import HypnoScript.Settings
import HypnoScript.Wire.Forms

namespace HypnoScript
namespace Service

open Json (Value)
open Wire

/-! ## 1. Calls and replies -/

/-- What an analysis is asked for with. -/
structure AnalyzeBody where
  text : Text
  uri : Option String
  locale : Option String

/-- What a layout is asked for with. -/
structure FormatBody where
  text : Text
  indentWidth : Int

/-- What quick fixes are asked for with. -/
structure FixesBody where
  text : Text
  locale : Option String

/-- What the service can be asked. -/
inductive Call where
  /-- Whether it is well. -/
  | health
  /-- The diagnostics of a text, which are kept if it is named. -/
  | analyze (b : AnalyzeBody)
  /-- The diagnostics that are kept of a document. -/
  | diagnostics (uri : String)
  /-- To forget a document, or all of them. -/
  | clear (uri? : Option String)
  /-- The layout of a text. -/
  | format (b : FormatBody)
  /-- The outline of a text. -/
  | outline (t : Text)
  /-- The quick fixes for a text, and the text with the preferred ones made. -/
  | fixes (b : FixesBody)

/-- What it replies. -/
inductive Reply where
  | healthy
  | diagnostics (uri? : Option String) (gs : List Diagnostic)
  /-- The names of the documents that have been forgotten. -/
  | cleared (uris : List String)
  | formatted (t : Text) (changed : Bool)
  | outlined (symbols : List Symbol) (ranges : List FoldingRange)
  | fixed (fixes : List QuickFix) (t : Text)

/-- What it breaks off with. -/
inductive Failure where
  /-- The indentation is too wide. -/
  | noRoom (e : Layout.NoRoom)
  /-- A text cannot be fixed. -/
  | fix (e : QuickFix.Failure)
  deriving DecidableEq, Repr

/-- The wire form of a reply. -/
def Reply.toValue : Reply → Value
  | .healthy => .object [("status", .string "ok")]
  | .diagnostics uri? gs =>
    .object [("uri", match uri? with | some uri => .string uri | none => .null),
      ("diagnostics", .list (gs.map Diagnostic.toValue))]
  | .cleared uris => .object [("cleared", .list (uris.map .string))]
  | .formatted t changed =>
    .object [("text", .string (String.ofList t)), ("changed", .bool changed)]
  | .outlined symbols ranges => Outline.toValue symbols ranges
  | .fixed fixes t =>
    .object [("fixes", .list (fixes.map QuickFix.toValue)),
      ("fixed_text", .string (String.ofList t))]

/-- Lays out a text. -/
def formatCall (b : FormatBody) : Except Failure Reply :=
  match format? { Dialect.standard with indentWidth := b.indentWidth } b.text with
  | .ok t => .ok (.formatted t (t != b.text))
  | .error e => .error (.noRoom e)

/-- Offers the quick fixes for a text. -/
def fixesCall (s : Settings) (b : FixesBody) : Except Failure Reply :=
  let w := s.wording b.locale
  match QuickFix.forText Dialect.standard w b.text (analyze Dialect.standard w b.text),
    fixDocument Dialect.standard w b.text with
  | .ok fixes, .ok t => .ok (.fixed fixes t)
  | .error e, _ => .error (.fix (.noSuchLine e))
  | _, .error e => .error (.fix e)

/-- What comes of a call, and the collection behind it. -/
def handle (s : Settings) (c : Collection) : Call → Except Failure Reply × Collection
  | .health => (.ok .healthy, c)
  | .analyze b =>
    let w := s.wording b.locale
    match b.uri with
    | none => (.ok (.diagnostics none (analyze Dialect.standard w b.text)), c)
    | some uri =>
      let (gs, c) := c.publish uri Dialect.standard w b.text
      (.ok (.diagnostics (some uri) gs), c)
  | .diagnostics uri => (.ok (.diagnostics (some uri) (c.get uri)), c)
  | .clear (some uri) => (.ok (.cleared (if c.contains uri then [uri] else [])), c.erase uri)
  | .clear none => (.ok (.cleared c.uris), Collection.empty)
  | .format b => (formatCall b, c)
  | .outline t => (.ok (.outlined (Outline.symbols t) (Outline.foldingRanges t)), c)
  | .fixes b => (fixesCall s b, c)

/-! ## 2. Routes -/

/-- What a framework reads in a request: the fields of its body, and the parameters of its query. -/
structure Input where
  fields : Checked (List (String × Value))
  parameter? : String → Option String

/-- What a body is checked for. -/
def Input.body {α : Type} (i : Input) (read : List (String × Value) → Checked α) : Checked α :=
  Checked.under (.field "body") (i.fields.andThen read)

/-- A parameter of the query that has to be there. -/
def Input.parameter (i : Input) (name : String) : Checked String :=
  match i.parameter? name with
  | some v => .ok v
  | none => Checked.under (.field "query") (Checked.under (.field name) (.fault .missing))

/-- The text in a body. -/
def readText (fs : List (String × Value)) : Checked Text := required Wire.text fs "text"

/-- A checked request for an analysis. -/
def AnalyzeBody.read (fs : List (String × Value)) : Checked AnalyzeBody :=
  AnalyzeBody.mk <$> readText fs <*> optional (nullable string) none fs "uri" <*>
    optional (nullable string) none fs "locale"

/-- A checked request for a layout. -/
def FormatBody.read (fs : List (String × Value)) : Checked FormatBody :=
  FormatBody.mk <$> readText fs <*> optional int 4 fs "indent_width"

/-- A checked request for quick fixes. -/
def FixesBody.read (fs : List (String × Value)) : Checked FixesBody :=
  FixesBody.mk <$> readText fs <*> optional (nullable string) none fs "locale"

/-- A route: the method and the path that it is registered for, and the call that it makes of what
is read in a request. -/
structure Route where
  method : String
  path : String
  read : Input → Checked Call

/-- Tells whether the service is well. -/
def healthRoute : Route := ⟨"GET", "/health", fun _ => .ok .health⟩

/-- Tells whether the service is alive, which is the same. -/
def liveRoute : Route := ⟨"GET", "/healthz/live", fun _ => .ok .health⟩

/-- Analyses a text, and keeps the diagnostics if it is named. -/
def analyzeRoute : Route := ⟨"POST", "/analyze", fun i => .analyze <$> i.body AnalyzeBody.read⟩

/-- Shows the diagnostics of a document. -/
def diagnosticsRoute : Route :=
  ⟨"GET", "/diagnostics", fun i => .diagnostics <$> i.parameter "uri"⟩

/-- Forgets a document, or all of them if none is named. -/
def clearRoute : Route := ⟨"DELETE", "/diagnostics", fun i => .ok (.clear (i.parameter? "uri"))⟩

/-- Lays out a text. -/
def formatRoute : Route := ⟨"POST", "/format", fun i => .format <$> i.body FormatBody.read⟩

/-- Outlines a text. -/
def outlineRoute : Route := ⟨"POST", "/outline", fun i => .outline <$> i.body readText⟩

/-- Offers the quick fixes for a text. -/
def fixesRoute : Route := ⟨"POST", "/fixes", fun i => .fixes <$> i.body FixesBody.read⟩

/-- The routes of the service. -/
def routes : List Route :=
  [healthRoute, liveRoute, analyzeRoute, diagnosticsRoute, clearRoute, formatRoute, outlineRoute,
    fixesRoute]

/-! ## 3. Frameworks -/

/-- A response, as far as a client of the service looks at it. -/
structure Response where
  status : Nat
  body : Value

/-- The response that a reply is meant to get. -/
def Reply.response (reply : Reply) : Response := ⟨200, reply.toValue⟩

/-- A web framework, for requests of some form.  How it reads a request, and what it answers on its
own, is left open; the texts that it reads are Unicode texts. -/
structure Framework (Request : Type) where
  method : Request → String
  path : Request → String
  read : Request → Input
  /-- The call that a request is handed on as, or the response that it gets without one. -/
  receive : Request → Except Response Call
  /-- The response with what has come of a call. -/
  deliver : Request → Except Failure Reply → Response
  /-- A request is handed on to the route with its method and its path, if it brings along what the
  route asks for, and to no other. -/
  receive_eq_ok_iff (r : Request) (call : Call) : receive r = .ok call ↔
    ∃ route ∈ routes, route.method = method r ∧ route.path = path r ∧
      route.read (read r) = Except.ok call
  /-- A request that takes a route but does not bring along what it asks for is refused. -/
  status_of_refused (r : Request) (response : Response) (refused : receive r = .error response)
    (takes : ∃ route ∈ routes, route.method = method r ∧ route.path = path r) :
    response.status ≠ 200
  /-- The response to a call that breaks off says so. -/
  status_of_failure (r : Request) (e : Failure) : (deliver r (.error e)).status ≠ 200

namespace Framework

variable {Request : Type} (F : Framework Request)

/-- The request takes a method of a path. -/
def Takes (r : Request) (method path : String) : Prop := F.method r = method ∧ F.path r = path

instance (r : Request) (method path : String) : Decidable (F.Takes r method path) :=
  inferInstanceAs (Decidable (_ ∧ _))

/-- A framework that writes all replies: each is sent in its wire form and with the status of a good
response.  This is kept apart from the laws because writing comes after the call.  A reply that
cannot be written, as one with half of a pair of units in a name, which is no Unicode text, leaves
behind what its call has done. -/
def WritesReplies : Prop :=
  ∀ (r : Request) (reply : Reply), F.deliver r (.ok reply) = reply.response

end Framework

/-! ## 4. Sessions -/

variable {Request : Type}

/-- The response to a request, and the collection behind it. -/
def respond (F : Framework Request) (s : Settings) (c : Collection) (r : Request) :
    Response × Collection :=
  match F.receive r with
  | .error response => (response, c)
  | .ok call =>
    let (reply, c) := handle s c call
    (F.deliver r reply, c)

/-- The responses to a sequence of requests. -/
def session (F : Framework Request) (s : Settings) : Collection → List Request → List Response
  | _, [] => []
  | c, r :: rs =>
    let (response, c) := respond F s c r
    response :: session F s c rs

end Service
end HypnoScript
