import Verdict.Json.Printer
import Verdict.Json.Reader
import Verdict.Payload.Basic

/-!
# Artifacts

A compiled document: its identity, how it was built, what it depends on, and its payload. Its JSON
form is the envelope stored in an archive.
-/

namespace Verdict

/-- How an artifact was built. -/
structure Metadata where
  compilerVersion : String
  /-- Milliseconds since the epoch. -/
  compiledAt : UInt64
  /-- The digest of the document's canonical form. -/
  contentHash : String
  deriving DecidableEq, Repr, Inhabited

structure Artifact where
  id : String
  version : Version
  metadata : Metadata
  dependencies : List Reference
  payload : Payload
  deriving Repr, Inhabited

namespace Metadata

def toJson (m : Metadata) : Json :=
  .obj [("compilerVersion", .str m.compilerVersion),
    ("compiledAtEpochMillis", .num (.int m.compiledAt.toNat)),
    ("contentHash", .str m.contentHash)]

def ofDraft (d : Json.Draft) : Except Json.Flaw Metadata := do
  let fields ← d.record [.required "compilerVersion" Json.Draft.text,
    .required "compiledAtEpochMillis" Json.Draft.uint64, .required "contentHash" Json.Draft.text]
  return ⟨← fields.get "compilerVersion" Json.Draft.text,
    ← fields.get "compiledAtEpochMillis" Json.Draft.uint64,
    ← fields.get "contentHash" Json.Draft.text⟩

end Metadata

namespace Artifact

def kind (a : Artifact) : Kind := a.payload.kind

/-- The identity of an artifact. -/
def reference (a : Artifact) : Reference := ⟨a.kind, a.id, a.version⟩

/-- The envelope. -/
def toJson (a : Artifact) : Json :=
  .obj [("id", .str a.id), ("version", .num (.int a.version.toNat)), ("kind", .str a.kind.name),
    ("metadata", a.metadata.toJson), ("dependencies", .arr (a.dependencies.map Reference.toJson)),
    ("payload", a.payload.toJson)]

/-- Reads an envelope. The payload is first read as a JSON value of its own, so it may repeat keys
and a mismatch inside it is found last. -/
def ofDraft (d : Json.Draft) : Except Json.Flaw Artifact := do
  let kind := Json.Draft.choice Kind.alternatives
  let dependencies := Json.Draft.list Reference.ofDraft
  let payload := Json.Draft.toJson (Json.Draft.depthLimit - 1)
  let fields ← d.record [.required "id" Json.Draft.text, .required "version" Json.Draft.uint32,
    .required "kind" kind, .required "metadata" Metadata.ofDraft,
    .defaulted "dependencies" dependencies, .required "payload" payload]
  let some body := Payload.ofJson? (← fields.get "kind" kind) (← fields.get "payload" payload)
    | throw .mismatched
  return ⟨← fields.get "id" Json.Draft.text, ← fields.get "version" Json.Draft.uint32,
    ← fields.get "metadata" Metadata.ofDraft, ← fields.getD "dependencies" dependencies [], body⟩

/-- Reads the text of an envelope. -/
def ofText (text : String) : Except Json.Flaw Artifact := Json.readWith ofDraft text

/-- Equality of artifacts, where the fields of an evidence type count as a map. -/
def same (a b : Artifact) : Bool :=
  a.id = b.id && a.version = b.version && a.metadata = b.metadata &&
    a.dependencies = b.dependencies && a.payload.same b.payload

end Artifact
end Verdict
