import Verdict.Archive.Manifest
import Verdict.Artifact.EntryPath
import Verdict.Closure
import Verdict.FileTree.Path

/-!
# Emitting archives

The closure of a challenge is packed into an archive: one envelope for every artifact under its
path, and a manifest. The files are staged apart, so that everything that can go wrong with them
goes wrong before the output directory is touched; the archive is then put in place as a whole.
-/

namespace Verdict

/-- Why no archive was written. -/
inductive EmitError where
  | unsuccessful (errors : Nat)
  | nothingToEmit
  | rootNotReachable (root : Reference)
  | rootNotChallenge (root : Reference)
  | unsafePath (path : String)
  | io (path : String) (fault : FileFault)
  deriving DecidableEq, Repr

def EmitError.message : EmitError → String
  | unsuccessful errors => "outcome has " ++ toString errors ++ " error(s), refusing to emit"
  | nothingToEmit => "no reachable artifacts, nothing to emit"
  | rootNotReachable root => "root " ++ root.text ++ " is not among the reachable artifacts"
  | rootNotChallenge root => "archive root " ++ root.text ++ " is not a challenge"
  | unsafePath path => "artifact path " ++ path ++ " escapes the archive"
  | io path fault => "i/o error on " ++ path ++ ": " ++ fault.message

namespace Emission

/-- The files of an archive before they are packed, and their paths so far. -/
structure Staging where
  paths : List String
  files : FileTree

/-- Nothing staged yet. -/
def Staging.empty : Staging := ⟨[], .empty⟩

/-- Writes a file of the staging area, with the directories on its path. -/
def stageFile (path : String) (text : String) (files : FileTree) : Except EmitError FileTree := do
  let names ← (FileTree.readPath path).mapError (.io path)
  match files.makeDirectories names.dropLast with
  | (_, some fault) => throw (.io path fault)
  | (files, none) => (files.writeFile (.plain (some text)) names).mapError (.io path)

/-- Stages the envelope of an artifact. A path that reads back as no reference is refused, so
nothing is staged outside the archive. -/
def stage (s : Staging) (a : Artifact) : Except EmitError Staging :=
  let path := a.reference.entryPath
  match Reference.ofEntryPath? path with
  | none => .error (.unsafePath path)
  | some _ => do
    return ⟨s.paths ++ [path], ← stageFile path a.toJson.pretty s.files⟩

/-- The manifest of an archive with the given root and paths. -/
def manifest (root : Artifact) (paths : List String) : Manifest :=
  ⟨⟨root.id, root.version, root.metadata.compiledAt, root.metadata.compilerVersion⟩,
    paths.mergeSort fun a b => a ≤ b⟩

/-- The entries of an archive in order: a walk of the staged files, a directory before what it
holds and siblings by name. -/
def entries (files : FileTree) : List Entry :=
  (files.walk []).filterMap fun (path, node) =>
    let name := "/".intercalate path
    if path.isEmpty then none
    else match node with
      | .directory _ => some ⟨name ++ "/", some ""⟩
      | .file c => some ⟨name, c.text?⟩

/-- The entries of the archive of an outcome, if it can be packed. -/
def pack (o : Outcome) : Except EmitError (List Entry) := do
  if !o.isSuccess then throw (.unsuccessful o.errors.length)
  if o.reached.isEmpty then throw .nothingToEmit
  let some root := o.find? o.root
    | throw (.rootNotReachable o.root)
  if root.kind ≠ .challenge then throw (.rootNotChallenge o.root)
  let staging ← o.reached.foldlM stage .empty
  let files ← stageFile manifestFile (manifest root staging.paths).toJson.pretty staging.files
  return entries files

end Emission

/-- Where the archive is written below an output directory. -/
def archivePath (output : String) : String := FileTree.join output archiveFile

/-- Writes the archive of an outcome below an output directory, which is made if it is missing. The
tree is the one afterwards, also when the archive could not be written. -/
def emit (tree : FileTree) (output : String) (o : Outcome) : FileTree × Except EmitError String :=
  match Emission.pack o, FileTree.readPath output with
  | .error e, _ => (tree, .error e)
  | .ok _, .error fault => (tree, .error (.io output fault))
  | .ok entries, .ok directory =>
    match tree.makeDirectories directory with
    | (tree, some fault) => (tree, .error (.io output fault))
    | (tree, none) =>
      let path := archivePath output
      match (FileTree.readPath path).bind (tree.writeFile (.archive entries)) with
      | .error fault => (tree, .error (.io path fault))
      | .ok tree => (tree, .ok path)

end Verdict
