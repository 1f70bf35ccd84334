import Arith.Document.Diagnostic

/-!
# Sessions with an editor

An editor tells when a document was opened or changed, and is then sent a notice with the
diagnostics of the document. The notice replaces all that was said of the document before, so it is
sent also if there are none.
-/

namespace Arith

/-- The diagnostics of a document. -/
structure Notice where
  uri : String
  diagnostics : List Diagnostic
  deriving DecidableEq, Repr

/-- What an editor tells. -/
inductive Event where
  | opened (uri : String)
  | changed (uri : String)
  deriving DecidableEq, Repr

/-- What the documents of an editor hold, and the notices that were sent to it, in order. -/
structure Session where
  textOf : String → Bytes
  sent : List Notice := []

namespace Session

/-- Sends the diagnostics of a document. Nothing is sent if its tokens cannot be read. -/
def validate (uri : String) : EStateM LexFault Session Unit := do
  match Diagnostic.ofBytes ((← get).textOf uri) with
  | .ok diagnostics => modify fun s => { s with sent := s.sent ++ [⟨uri, diagnostics⟩] }
  | .error f => throw f

/-- Does what an event asks for. -/
def handle : Event → EStateM LexFault Session Unit
  | .opened uri => validate uri
  | .changed uri => validate uri

end Session

end Arith
