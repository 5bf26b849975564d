/-
# Collections of diagnostics

The latest diagnostics of each document, by the name of the document.  Setting those of a document
replaces the ones before; nothing is merged.  The names are listed in the order of their characters.
-/
import HypnoScript.Analysis
import HypnoScript.Wire.Forms

namespace HypnoScript

/-- The diagnostics of some documents, each document once. -/
structure Collection where
  entries : List (String × List Diagnostic) := []

namespace Collection

/-- A collection of no documents. -/
def empty : Collection := {}

/-- The diagnostics of a document; none if it is not in the collection. -/
def get (c : Collection) (uri : String) : List Diagnostic := (c.entries.lookup uri).getD []

/-- Whether a document is in the collection. -/
def contains (c : Collection) (uri : String) : Bool := c.entries.any (·.1 == uri)

/-- The collection without a document. -/
def erase (c : Collection) (uri : String) : Collection := ⟨c.entries.filter (·.1 != uri)⟩

/-- The collection with these diagnostics for a document. -/
def set (c : Collection) (uri : String) (gs : List Diagnostic) : Collection :=
  ⟨(uri, gs) :: (c.erase uri).entries⟩

/-- The names of the documents, in increasing order. -/
def uris (c : Collection) : List String :=
  (c.entries.map (·.1)).mergeSort fun a b => decide (a ≤ b)

/-- Analyses a text and keeps the diagnostics for a document. -/
def publish (c : Collection) (uri : String) (dialect : Dialect) (w : Wording) (t : Text) :
    List Diagnostic × Collection :=
  let gs := analyze dialect w t
  (gs, c.set uri gs)

/-! ## Operations

What can be asked of a collection, one operation after the other, and what is answered.  A document
that is not a text is not published: that is all the answer says, and the collection stays as it
is. -/

/-- What can be asked of a collection. -/
inductive Operation where
  /-- Set the diagnostics of a document. -/
  | set (uri : String) (gs : List Diagnostic)
  /-- Analyse a document and set its diagnostics. -/
  | publish (uri : String) (dialect : Dialect) (w : Wording) (text : Json.Value)
  /-- Show the diagnostics of a document. -/
  | get (uri : String)
  /-- Take a document out. -/
  | delete (uri : String)
  /-- Take all documents out. -/
  | clear
  /-- Show the names of the documents. -/
  | uris

/-- What is answered. -/
inductive Answer where
  | done
  | diagnostics (gs : List Diagnostic)
  /-- Whether the document was there. -/
  | deleted (known : Bool)
  | uris (names : List String)
  /-- The document is not a text. -/
  | notText (e : NotText)
  deriving DecidableEq, Repr

/-- Carries out an operation. -/
def perform (c : Collection) : Operation → Answer × Collection
  | .set uri gs => (.done, c.set uri gs)
  | .publish uri dialect w text =>
    match textOfValue text with
    | .ok t =>
      let (gs, c) := c.publish uri dialect w t
      (.diagnostics gs, c)
    | .error e => (.notText e, c)
  | .get uri => (.diagnostics (c.get uri), c)
  | .delete uri => (.deleted (c.contains uri), c.erase uri)
  | .clear => (.done, empty)
  | .uris => (.uris c.uris, c)

/-- The collection after some operations. -/
def after (c : Collection) (ops : List Operation) : Collection :=
  ops.foldl (fun c op => (c.perform op).2) c

/-- The answers to some operations. -/
def answers (c : Collection) : List Operation → List Answer
  | [] => []
  | op :: ops => (c.perform op).1 :: (c.perform op).2.answers ops

end Collection
end HypnoScript
