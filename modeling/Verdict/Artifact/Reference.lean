import Verdict.Artifact.Kind
import Verdict.Json.Decoding
import Verdict.Text.Quoted

/-!
# Identity of artifacts

An artifact is addressed by its kind, an id and a version. An id is used as a file name, so some
texts are no ids; `idFault?` names the first reason against one.
-/

namespace Verdict

/-- Versions count from one; zero is only met in texts that nobody checked. -/
abbrev Version := UInt32

/-- Why a text cannot be an id. -/
inductive IdFault where
  | empty
  | separator
  | relative
  | control
  deriving DecidableEq, Repr

def IdFault.reason : IdFault → String
  | empty => "must not be empty"
  | separator => "must not contain a path separator"
  | relative => "must not be a relative path segment"
  | control => "must not contain control characters"

/-- The first reason against an id, if there is one. -/
def idFault? (id : String) : Option IdFault :=
  if id = "" then some .empty
  else if id.toList.any fun c => c = '/' || c = '\\' then some .separator
  else if id = "." ∨ id = ".." then some .relative
  else if id.toList.any Text.isControl then some .control
  else none

/-- A text that can be an id. -/
def ValidId (id : String) : Prop := idFault? id = none

instance (id : String) : Decidable (ValidId id) := inferInstanceAs (Decidable (_ = _))

/-- The message about a text that cannot be an id. -/
def IdFault.message (id : String) (f : IdFault) : String :=
  "invalid artifact id " ++ Text.quoted id ++ ": " ++ f.reason

/-- An id with a version, where the kind is clear from the place. -/
structure VersionedId where
  id : String
  version : Version
  deriving DecidableEq, Repr, Inhabited

/-- The identity of an artifact. -/
structure Reference where
  kind : Kind
  id : String
  version : Version
  deriving DecidableEq, Repr, Inhabited

namespace VersionedId

/-- The text `id@version`. -/
def text (v : VersionedId) : String := v.id ++ "@" ++ toString v.version.toNat

def withKind (v : VersionedId) (kind : Kind) : Reference := ⟨kind, v.id, v.version⟩

def toJson (v : VersionedId) : Json :=
  .obj [("id", .str v.id), ("version", .num (.int v.version.toNat))]

def ofDraft (d : Json.Draft) : Except Json.Flaw VersionedId := do
  let fields ← d.record [.required "id" Json.Draft.text, .required "version" Json.Draft.uint32]
  return ⟨← fields.get "id" Json.Draft.text, ← fields.get "version" Json.Draft.uint32⟩

end VersionedId

namespace Reference

/-- The text `Kind:id:version`. -/
def text (r : Reference) : String :=
  r.kind.name ++ ":" ++ r.id ++ ":" ++ toString r.version.toNat

def versionedId (r : Reference) : VersionedId := ⟨r.id, r.version⟩

def toJson (r : Reference) : Json :=
  .obj [("kind", .str r.kind.name), ("id", .str r.id), ("version", .num (.int r.version.toNat))]

def ofDraft (d : Json.Draft) : Except Json.Flaw Reference := do
  let fields ← d.record [.required "kind" (Json.Draft.choice Kind.alternatives),
    .required "id" Json.Draft.text, .required "version" Json.Draft.uint32]
  return ⟨← fields.get "kind" (Json.Draft.choice Kind.alternatives),
    ← fields.get "id" Json.Draft.text, ← fields.get "version" Json.Draft.uint32⟩

/-- The order of listings: by kind, then by id, then by version. -/
def listedBefore (a b : Reference) : Bool :=
  if a.kind.order ≠ b.kind.order then a.kind.order < b.kind.order
  else if a.id ≠ b.id then a.id < b.id
  else a.version ≤ b.version

end Reference
end Verdict
