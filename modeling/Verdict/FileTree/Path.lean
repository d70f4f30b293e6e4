import Verdict.FileTree.Basic
import Verdict.Text.Segments

/-!
# Paths in a file tree

A path is followed step by step: a name goes down, `..` goes up, `.` and an empty step stay, and
every step is taken from a directory that is there. So a trailing slash asks for a directory, and
`a/../b` leads nowhere unless `a` does.

A directory is made with the directories that its path goes through. The whole path is tried first
and shorter ones only while something is missing, so what is made is made in order from the outside.
-/

namespace Verdict.FileTree

/-- The bytes a path may have. -/
def pathLimit : Nat := 4095

/-- What is wrong with a path before any step is taken. -/
def pathFault? (path : String) : Option FileFault :=
  if path.toList.any (· = '\x00') then some .unnameable
  else if pathLimit < path.utf8ByteSize then some .nameTooLong
  else none

/-- The steps of a path, between its slashes. -/
def steps (path : String) : List String := (Text.segments '/' path.toList).map String.ofList

/-- The steps of a path on which steps can be taken. -/
def readPath (path : String) : Except FileFault (List String) :=
  match pathFault? path with
  | some fault => .error fault
  | none => .ok (steps path)

/-- The steps that go somewhere. -/
def moves (path : List String) : List String := path.filter fun s => s ≠ "" ∧ s ≠ "."

/-- The name at the end of a path, if it ends in one. -/
def fileName? (path : String) : Option String :=
  (moves (steps path)).getLast?.filter (· ≠ "..")

/-- The path of a file below a directory; a name that starts with a slash stands alone. -/
def join (directory name : String) : String :=
  if directory = "" ∨ name.toList.head? = some '/' then name
  else if directory.toList.getLast? = some '/' then directory ++ name
  else directory ++ "/" ++ name

/-! ## Following -/

/-- Takes one step from the directory with the given names on the way to it. Above the whole tree
there is nothing, so going up from there stays. -/
def step (t : FileTree) (place : List String) (s : String) : Except FileFault (List String) :=
  if s = "" ∨ s = "." ∨ s = ".." then
    match follow place t with
    | .ok (directory _) => .ok (if s = ".." then place.dropLast else place)
    | .ok (file _) => .error .notDirectory
    | .error fault => .error fault
  else (follow (place ++ [s]) t).map fun _ => place ++ [s]

/-- The names on the way to where a path leads. -/
def locate (t : FileTree) (path : List String) : Except FileFault (List String) :=
  path.foldlM (step t) []

/-- What a path leads to. The empty path leads nowhere. -/
def get (t : FileTree) (path : String) : Except FileFault FileTree := do
  if path = "" then throw .notFound
  follow (← locate t (← readPath path)) t

/-- The place of a path and what stands there, if something does. Only the last step may lead to
nothing. -/
def slot (t : FileTree) (path : List String) : Except FileFault (List String × Option FileTree) :=
  match path.getLast? with
  | none => .ok ([], some t)
  | some last => do
    let place ← locate t path.dropLast
    match step t place last with
    | .ok names => return (names, t.find? names)
    | .error .notFound => return (place ++ [last], none)
    | .error fault => throw fault

/-! ## Making and writing -/

/-- Makes one directory, in a directory that has to be there. -/
def makeDirectory (t : FileTree) (path : List String) : Except FileFault FileTree := do
  match ← slot t (path.reverse.dropWhile (· = "")).reverse with
  | (names, none) => return graft empty names t
  | (_, some _) => throw .occupied

/-- Whether a path leads to a directory. -/
def hasDirectory (t : FileTree) (path : List String) : Bool :=
  match (locate t path).bind fun names => follow names t with
  | .ok (directory _) => true
  | _ => false

/-- Makes a directory that may already be there. -/
def ensureDirectory (t : FileTree) (path : List String) : FileTree × Option FileFault :=
  match makeDirectory t path with
  | .ok t => (t, none)
  | .error fault => (t, if hasDirectory t path then none else some fault)

/-- Makes the first of the directories, after the others if it cannot be made without them. -/
def ensureOutward (t : FileTree) : List (List String) → FileTree × Option FileFault
  | [] => (t, none)
  | path :: shorter =>
    match ensureDirectory t path with
    | (_, some .notFound) =>
      match ensureOutward t shorter with
      | (t, none) => ensureDirectory t path
      | (t, some fault) => (t, some fault)
    | result => result

/-- A path and the paths it goes through, from long to short. -/
def ancestors (path : List String) : List (List String) :=
  let names := moves path
  path :: (List.range names.length).reverse.map fun n => names.take n

/-- Makes the directories of a path that are missing. The tree is the one afterwards, also when
something stood in the way. -/
def makeDirectories (t : FileTree) (path : List String) : FileTree × Option FileFault :=
  ensureOutward t (ancestors path)

/-- Puts a file in place as a whole. The directories have to be there, and a directory is never
replaced. -/
def writeFile (t : FileTree) (content : Content) (path : List String) :
    Except FileFault FileTree := do
  match ← slot t path with
  | (_, some (directory _)) => throw .isDirectory
  | (names, _) => return graft (file content) names t

end Verdict.FileTree
