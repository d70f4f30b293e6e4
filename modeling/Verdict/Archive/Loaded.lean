import Verdict.Archive.Manifest
import Verdict.Artifact.Registry

/-!
# Loaded archives

The artifacts of one archive in memory, with the header of its manifest. A payload is looked up by
the kind it has to have and an id with a version.
-/

namespace Verdict

/-- No artifact is loaded under a reference. -/
structure NotLoaded where
  reference : Reference
  deriving DecidableEq, Repr

def NotLoaded.message (n : NotLoaded) : String :=
  n.reference.kind.name ++ " " ++ n.reference.versionedId.text ++ " not found in runtime context"

structure LoadedArchive where
  header : ManifestHeader
  artifacts : Registry
  deriving Inhabited

namespace LoadedArchive

/-- The challenge the archive is rooted at. -/
def root (l : LoadedArchive) : VersionedId := ⟨l.header.rootId, l.header.rootVersion⟩

/-- The envelope loaded under a reference. -/
def artifact? (l : LoadedArchive) (r : Reference) : Option Artifact := l.artifacts.find? r

/-- The payload of a kind, as far as `select` finds it to be of that kind. -/
def payload {α : Type} (l : LoadedArchive) (kind : Kind) (select : Payload → Option α)
    (key : VersionedId) : Except NotLoaded α :=
  match (l.artifact? (key.withKind kind)).bind fun a => select a.payload with
  | some body => .ok body
  | none => .error ⟨key.withKind kind⟩

def challenge (l : LoadedArchive) : VersionedId → Except NotLoaded Challenge :=
  l.payload .challenge Payload.asChallenge?

def task (l : LoadedArchive) : VersionedId → Except NotLoaded Task :=
  l.payload .task Payload.asTask?

def ruleset (l : LoadedArchive) : VersionedId → Except NotLoaded Ruleset :=
  l.payload .ruleset Payload.asRuleset?

def rule (l : LoadedArchive) : VersionedId → Except NotLoaded Rule :=
  l.payload .rule Payload.asRule?

def evidenceType (l : LoadedArchive) : VersionedId → Except NotLoaded EvidenceType :=
  l.payload .evidenceType Payload.asEvidenceType?

def size (l : LoadedArchive) : Nat := l.artifacts.size

end LoadedArchive
end Verdict
