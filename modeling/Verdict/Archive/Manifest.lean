import Verdict.Json.Decoding
import Verdict.Json.Printer
import Verdict.Json.Reader

/-!
# Manifests

The manifest of an archive names its root challenge and lists the paths of its artifacts.
-/

namespace Verdict

/-- What an archive is rooted at and how the root was built. -/
structure ManifestHeader where
  rootId : String
  rootVersion : UInt32
  /-- Milliseconds since the epoch. -/
  compiledAt : UInt64
  compilerVersion : String
  deriving DecidableEq, Repr, Inhabited

structure Manifest where
  header : ManifestHeader
  /-- The paths of the artifacts. -/
  files : List String
  deriving DecidableEq, Repr, Inhabited

namespace ManifestHeader

def toJson (h : ManifestHeader) : Json :=
  .obj [("rootId", .str h.rootId), ("rootVersion", .num (.int h.rootVersion.toNat)),
    ("compiledAtEpochMillis", .num (.int h.compiledAt.toNat)),
    ("compilerVersion", .str h.compilerVersion)]

def ofDraft (d : Json.Draft) : Except Json.Flaw ManifestHeader := do
  let fields ← d.record [.required "rootId" Json.Draft.text,
    .required "rootVersion" Json.Draft.uint32,
    .required "compiledAtEpochMillis" Json.Draft.uint64,
    .required "compilerVersion" Json.Draft.text]
  return ⟨← fields.get "rootId" Json.Draft.text, ← fields.get "rootVersion" Json.Draft.uint32,
    ← fields.get "compiledAtEpochMillis" Json.Draft.uint64,
    ← fields.get "compilerVersion" Json.Draft.text⟩

end ManifestHeader

namespace Manifest

def toJson (m : Manifest) : Json :=
  .obj [("header", m.header.toJson), ("files", .arr (m.files.map .str))]

def ofDraft (d : Json.Draft) : Except Json.Flaw Manifest := do
  let files := Json.Draft.list Json.Draft.text
  let fields ← d.record [.required "header" ManifestHeader.ofDraft, .required "files" files]
  return ⟨← fields.get "header" ManifestHeader.ofDraft, ← fields.get "files" files⟩

/-- Reads the text of a manifest. -/
def ofText (text : String) : Except Json.Flaw Manifest := Json.readWith ofDraft text

end Manifest
end Verdict
