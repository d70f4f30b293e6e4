import Verdict.Archive.Loaded
import Verdict.Artifact.EntryPath
import Verdict.FileTree.Path

/-!
# Loading archives

An archive is loaded entry by entry. Every file in it is either the manifest or an artifact that
belongs where it stands; the manifest lists exactly the artifacts, and its root challenge is one of
them.
-/

namespace Verdict

/-- Why an archive could not be loaded. -/
inductive LoadError where
  /-- A file or entry that cannot be read as text; without a fault, its bytes are not UTF-8. -/
  | unreadable (path : String) (fault : Option FileFault)
  | notArchive
  | missingManifest
  | invalidEntry (path : String) (flaw : Json.Flaw)
  | unroutableEntry (path : String)
  | misplacedEntry (path : String) (found : Reference)
  | missingEntry (path : String)
  | unlistedEntry (path : String)
  | missingRoot (root : VersionedId)
  deriving DecidableEq, Repr

namespace LoadError

/-- What caused an error from outside: the text of the file system, of the archive format or of the
JSON reader. -/
def cause? : LoadError → Option String
  | unreadable _ fault => some ((fault.map FileFault.message).getD notTextMessage)
  | notArchive => some notArchiveMessage
  | invalidEntry _ flaw => some flaw.message
  | missingManifest => none
  | unroutableEntry _ => none
  | misplacedEntry _ _ => none
  | missingEntry _ => none
  | unlistedEntry _ => none
  | missingRoot _ => none

def message : LoadError → String
  | unreadable path fault =>
    "i/o error on " ++ path ++ ": " ++ (fault.map FileFault.message).getD notTextMessage
  | notArchive => "zip error: " ++ notArchiveMessage
  | missingManifest => "archive has no manifest"
  | invalidEntry path flaw => "invalid JSON in archive entry " ++ path ++ ": " ++ flaw.message
  | unroutableEntry path => "unroutable archive entry: " ++ path
  | misplacedEntry path found => "archive entry " ++ path ++ " holds " ++ found.text
  | missingEntry path => "manifest lists " ++ path ++ " but the archive does not contain it"
  | unlistedEntry path => "archive entry " ++ path ++ " is not listed in the manifest"
  | missingRoot root => "manifest root challenge " ++ root.text ++ " is not in the archive"

end LoadError

namespace Loading

/-- What has been read of an archive. -/
structure Progress where
  manifest : Option Manifest
  /-- The artifacts by entry name, in archive order. -/
  artifacts : List (String × Artifact)

/-- Nothing read yet. -/
def Progress.empty : Progress := ⟨none, []⟩

/-- Reads an artifact from the entry that has to hold it. -/
def readArtifact (name text : String) : Except LoadError Artifact := do
  let some expected := Reference.ofEntryPath? name
    | throw (.unroutableEntry name)
  let a ← (Artifact.ofText text).mapError (.invalidEntry name)
  if a.reference ≠ expected then throw (.misplacedEntry name a.reference)
  return a

/-- Reads one entry. -/
def readEntry (p : Progress) (e : Entry) : Except LoadError Progress := do
  if e.isDirectory then return p
  let some text := e.text?
    | throw (.unreadable e.name none)
  if e.name = manifestFile then
    let m ← (Manifest.ofText text).mapError (.invalidEntry e.name)
    return { p with manifest := some m }
  let a ← readArtifact e.name text
  return { p with artifacts := p.artifacts ++ [(e.name, a)] }

/-- Checks what was read against the manifest. -/
def check (p : Progress) : Except LoadError LoadedArchive := do
  let some manifest := p.manifest
    | throw .missingManifest
  let names := p.artifacts.map (·.1)
  if let some path := manifest.files.find? fun f => f ∉ names then throw (.missingEntry path)
  let sorted := names.mergeSort fun a b => a ≤ b
  if let some name := sorted.find? fun n => n ∉ manifest.files then throw (.unlistedEntry name)
  let loaded : LoadedArchive := ⟨manifest.header, .ofArtifacts (p.artifacts.map (·.2))⟩
  match loaded.challenge loaded.root with
  | .ok _ => return loaded
  | .error _ => throw (.missingRoot loaded.root)

end Loading

namespace LoadedArchive

/-- Loads the entries of an archive. -/
def ofEntries (entries : List Entry) : Except LoadError LoadedArchive := do
  Loading.check (← (Entry.distinct entries).foldlM Loading.readEntry .empty)

/-- Loads the content of a file. -/
def ofContent : Content → Except LoadError LoadedArchive
  | .archive entries => ofEntries entries
  | .plain _ => .error .notArchive

/-- Loads the archive at a path. -/
def load (tree : FileTree) (path : String) : Except LoadError LoadedArchive :=
  match tree.get path with
  | .ok (.file c) => ofContent c
  | .ok (.directory _) => .error .notArchive
  | .error fault => .error (.unreadable path (some fault))

end LoadedArchive
end Verdict
