import Std.Time.DateTime.Timestamp
import Verdict.Archive.Container
import Verdict.CommandLine.Command

/-!
# The command line

The first argument names the tool and the others are its arguments. What the command needs of the
file system is read into a file tree, the command runs on that, and an archive it has written is
written out.
-/

namespace Verdict.CommandLine

/-- The content of a file. -/
def contentOf (bytes : ByteArray) : Content :=
  match Container.decode? bytes with
  | some entries => .archive entries
  | none => .plain (String.fromUTF8? bytes)

/-- Reads what stands at a path, as deep as `depth` says; links below it are passed over. -/
def readTree (depth : Nat) (path : String) : IO (Option FileTree) := do
  let found ← (IO.FS.realPath path).toBaseIO
  let .ok real := found
    | return none
  if !(← real.isDir) then
    return some (.file (contentOf (← IO.FS.readBinFile path)))
  match depth with
  | 0 => return some .empty
  | depth + 1 =>
    let mut children := []
    for entry in ← real.readDir do
      if (← entry.path.symlinkMetadata).type == .symlink then continue
      if let some child ← readTree depth entry.path.toString then
        children := insertSorted entry.fileName child children
    return some (.directory children)

/-- The path with its first steps, and the same path again with one step more, up to the whole. -/
def prefixes (path : String) : List (List String) :=
  let steps := FileTree.steps path
  (List.range steps.length).map fun n => steps.take (n + 1)

/-- Adds to a tree what stands at a path, if the tree has nothing there or is to be read deeper. -/
def addPath (depth : Nat) (tree : FileTree) (path : List String) : IO FileTree := do
  match tree.slot path with
  | .ok (names, found) =>
    if found.isSome && depth = 0 then return tree
    match ← readTree depth ("/".intercalate path) with
    | some node => return node.graft names tree
    | none => return tree
  | .error _ => return tree

/-- How deep directories of documents are read. -/
def depthLimit : Nat := 1000

/-- The part of the file system that a command looks at. -/
def readFor : Command → IO FileTree
  | .compile sources _ output => do
    let paths := prefixes sources ++ prefixes (archivePath output)
    let tree ← paths.foldlM (addPath 0) .empty
    addPath depthLimit tree (FileTree.steps sources)
  | .evaluate archive _ _ => (prefixes archive).foldlM (addPath 0) .empty

/-- Makes a directory that a command has left in the tree. -/
def writeDirectory (before after : FileTree) (path : List String) : IO Unit := do
  if after.hasDirectory path && !before.hasDirectory path then
    IO.FS.createDirAll ("/".intercalate path)

/-- Writes out the directories and the archive that a command has left in the tree. -/
def writeFor (before after : FileTree) : Command → Nat → IO Unit
  | .compile _ _ output, code => do
    (prefixes output).forM (writeDirectory before after)
    if code = 0 then
      let path := archivePath output
      if let .ok (.file (.archive entries)) := after.get path then
        let staged := FileTree.join output ".archive.partial"
        IO.FS.writeBinFile staged (Container.encode entries)
        IO.FS.rename staged path
  | .evaluate _ _ _, _ => return ()

/-- Milliseconds since the epoch. -/
def now : IO UInt64 := do
  let t ← Std.Time.Timestamp.now
  return UInt64.ofNat t.toMillisecondsSinceUnixEpoch.val.toNat

def runTool (grammar : Grammar) (command : Except Stop Command) : IO UInt32 := do
  match command with
  | .error .help =>
    grammar.help.forM IO.println
    return 0
  | .error .usage =>
    IO.eprintln grammar.usage
    return 2
  | .ok c =>
    let before ← readFor c
    let (completion, after) := run (← now) before c
    writeFor before after c completion.code
    completion.lines.forM IO.println
    return UInt32.ofNat completion.code

end Verdict.CommandLine

def main (arguments : List String) : IO UInt32 := do
  let tools := Verdict.CommandLine.tools
  match arguments with
  | tool :: rest =>
    match tools.find? fun t => t.1.tool = tool with
    | some (grammar, command) => Verdict.CommandLine.runTool grammar (command rest)
    | none => IO.eprintln ("no such tool: " ++ tool); return 2
  | [] =>
    tools.forM fun t => IO.eprintln t.1.usage
    return 2
