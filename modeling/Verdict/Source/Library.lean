import Verdict.Source.Unit
import Verdict.Text.Segments

/-!
# Source libraries

The documents of one run. They are worked on kind by kind in compilation order, and within a kind in
the order in which they were loaded.

Documents come from texts at hand, from the `.json` files of a directory tree, or from the `.json`
entries of an archive. Files are loaded in the order of their paths, name by name; entries in the
order of their names.
-/

namespace Verdict

/-- Documents in load order. -/
structure Library where
  loaded : List SourceUnit
  deriving Repr, Inhabited

namespace Library

def ofKind (l : Library) (kind : Kind) : List SourceUnit := l.loaded.filter fun u => u.kind = kind

/-- The documents kind by kind. -/
def units (l : Library) : List SourceUnit := Kind.all.flatMap l.ofKind

def size (l : Library) : Nat := l.loaded.length

/-- Counts by kind, for the kinds that occur. -/
def countKinds (kinds : List Kind) : List (Kind × Nat) :=
  (Kind.all.map fun k => (k, kinds.count k)).filter fun e => e.2 ≠ 0

/-- The number of documents of each kind that occurs. -/
def counts (l : Library) : List (Kind × Nat) := countKinds (l.loaded.map (·.kind))

/-- Reads documents given as origin and text; the first that cannot be read ends it. -/
def ofTexts (texts : List (String × String)) : Except SourceError Library := do
  return ⟨← texts.mapM fun t => SourceUnit.ofText t.1 t.2⟩

/-- Whether a file name has the extension `json`; a name that is only the extension has none. -/
def hasJsonExtension (name : String) : Bool :=
  Text.hasEnding ".json".toList name.toList && name ≠ ".json"

/-- The order of paths, name by name. -/
def pathBefore : List String → List String → Bool
  | [], _ => true
  | _ :: _, [] => false
  | a :: as, b :: bs => if a = b then pathBefore as bs else a < b

/-- Loads the `.json` files below a path, or the file at the path. All directories are gone through
before any file is read. -/
def ofDirectory (tree : FileTree) (root : String) : Except SourceError Library := do
  let node ← (tree.get root).mapError (.untraversable root)
  let found := (node.walk []).map fun (names, node) => (names, names.foldl FileTree.join root, node)
  let barred := found.findSome? fun (_, path, node) =>
    if node.isDirectory then (FileTree.pathFault? path).map (.untraversable path) else none
  if let some e := barred then throw e
  let files := found.filterMap fun (names, path, node) =>
    match node with
    | .file c =>
      let name := names.getLast?.or (FileTree.fileName? root)
      if hasJsonExtension (name.getD "") then some (names, path, c) else none
    | .directory _ => none
  let sorted := files.mergeSort fun a b => pathBefore a.1 b.1
  let units ← sorted.mapM fun (_, path, content) => do
    if let some fault := FileTree.pathFault? path then throw (.unreadable path (some fault))
    let some text := content.text?
      | throw (.unreadable path none)
    SourceUnit.ofText path text
  return ⟨units⟩

/-- Loads the `.json` entries of an archive. All are read before any is parsed. -/
def ofArchive (tree : FileTree) (path : String) : Except SourceError Library := do
  let node ← (tree.get path).mapError fun f => .unreadable path (some f)
  let some (.archive entries) := node.content?
    | throw .notArchive
  let wanted := (Entry.distinct entries).filter fun e =>
    !e.isDirectory && Text.hasEnding ".json".toList e.name.toList
  let texts ← wanted.mapM fun e => do
    let some text := e.text?
      | throw (.unreadable (FileTree.join path e.name) none)
    return (e.name, text)
  let sorted := texts.mergeSort fun a b => a.1 ≤ b.1
  ofTexts (sorted.map fun e => (path ++ "!" ++ e.1, e.2))

/-- Whether the last name of a path has the extension `zip` in either case. -/
def isArchivePath (path : String) : Bool :=
  match FileTree.fileName? path with
  | some name =>
    let cs := name.toList.map Char.toLower
    Text.hasEnding ".zip".toList cs && cs ≠ ".zip".toList
  | none => false

/-- Loads documents from an archive or a directory tree, as the path's extension says. -/
def load (tree : FileTree) (path : String) : Except SourceError Library :=
  if isArchivePath path then ofArchive tree path else ofDirectory tree path

end Library
end Verdict
