import Verdict.Artifact.Basic
import Verdict.Table

/-!
# Registries

Artifacts under their references. Registering an artifact replaces the one registered before under
the same reference.
-/

namespace Verdict

/-- Artifacts under their references. -/
abbrev Registry := Table Reference Artifact

namespace Registry

/-- Registers an artifact under its reference. -/
def register (r : Registry) (a : Artifact) : Registry := r.insert a.reference a

/-- Registers artifacts in order. -/
def ofArtifacts (as : List Artifact) : Registry := as.foldl register Table.empty

/-- The artifacts as they are listed: by kind, id and version. -/
def listed (r : Registry) : List Artifact :=
  r.values.mergeSort fun a b => a.reference.listedBefore b.reference

end Registry
end Verdict
