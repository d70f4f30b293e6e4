import Verdict.Artifact.Reference
import Verdict.Text.Digits
import Verdict.Text.Segments

/-!
# Paths in an archive

An artifact is stored under `Kind/version/id.json`. Reading a path back accepts every spelling of
the version that writes a 32-bit number, with a plus sign or leading zeros.
-/

namespace Verdict

/-- The name of the manifest in an archive. -/
def manifestFile : String := "manifests.json"

/-- The file name of an emitted archive. -/
def archiveFile : String := "compilation_package.dar"

/-- The ending of entry names. -/
def entryEnding : String := ".json"

/-- The version written by decimal digits with an optional plus sign. -/
def Version.ofText? (cs : List Char) : Option Version :=
  let ds := match cs with
    | '+' :: ds => ds
    | ds => ds
  if ds.isEmpty || !ds.all Char.isDigit then none
  else
    let n := Text.decimalValue ds
    if n < UInt32.size then some (UInt32.ofNat n) else none

namespace Reference

/-- Where an artifact is stored in an archive. -/
def entryPath (r : Reference) : String :=
  r.kind.name ++ "/" ++ toString r.version.toNat ++ "/" ++ r.id ++ entryEnding

/-- The artifact that a path in an archive stands for. -/
def ofEntryPath? (path : String) : Option Reference :=
  match Text.segments '/' path.toList with
  | [kind, version, file] => do
    let kind ← Kind.ofName? (String.ofList kind)
    let version ← Version.ofText? version
    let id ← Text.dropEnding? entryEnding.toList file
    if ValidId (String.ofList id) then return ⟨kind, String.ofList id, version⟩ else none
  | _ => none

/-- The message about a path that stands for no artifact. -/
def malformedPathMessage (path : String) : String := "malformed archive path: " ++ path

end Reference
end Verdict
