import Verdict.Archive.Entry
import Verdict.Table

/-!
# File trees

A directory tree as a value. Reading and writing files are functions on it, so that what a run
leaves behind can be compared with what was there before.

A file is seen as the text its bytes encode, or as an archive with its entries in order; bytes that
encode no text are only known to be there.
-/

namespace Verdict

/-- Why the file system refuses an operation. -/
inductive FileFault where
  | notFound
  | occupied
  | notDirectory
  | isDirectory
  | nameTooLong
  /-- A path with the character NUL, which no name can have. -/
  | unnameable
  deriving DecidableEq, Repr

/-- The system's wording. -/
def FileFault.message : FileFault → String
  | notFound => "No such file or directory (os error 2)"
  | occupied => "File exists (os error 17)"
  | notDirectory => "Not a directory (os error 20)"
  | isDirectory => "Is a directory (os error 21)"
  | nameTooLong => "File name too long (os error 36)"
  | unnameable => "file name contained an unexpected NUL byte"

/-- What is wrong with a file whose bytes are no text. -/
def notTextMessage : String := "stream did not contain valid UTF-8"

/-- What is wrong with a file that is no archive. -/
def notArchiveMessage : String := "invalid Zip archive: Could not find EOCD"

/-- What a file holds. -/
inductive Content where
  /-- Bytes, with the text they encode if they are UTF-8. -/
  | plain (text? : Option String)
  | archive (entries : List Entry)
  deriving DecidableEq, Repr, Inhabited

/-- The text of a file; an archive is not text. -/
def Content.text? : Content → Option String
  | plain t => t
  | archive _ => none

/-- A file, or a directory with its children sorted by name. -/
inductive FileTree where
  | file (content : Content)
  | directory (children : List (String × FileTree))
  deriving Repr, Inhabited

namespace FileTree

/-- An empty directory. -/
def empty : FileTree := directory []

/-- The bytes a name may have. -/
def nameLimit : Nat := 255

/-- What stands at the end of a list of names. -/
def follow : List String → FileTree → Except FileFault FileTree
  | [], t => .ok t
  | _ :: _, file _ => .error .notDirectory
  | name :: rest, directory children =>
    match children.lookup name with
    | some child => follow rest child
    | none => .error (if nameLimit < name.utf8ByteSize then .nameTooLong else .notFound)

def find? (names : List String) (t : FileTree) : Option FileTree := (follow names t).toOption

/-- Children with one of them replaced, or added in the place its name has among them. -/
def setChild (name : String) (child : FileTree) (children : List (String × FileTree)) :
    List (String × FileTree) :=
  if (children.lookup name).isSome then Table.insertEntry name child children
  else insertSorted name child children

/-- The tree with another one in the place of what stands at the end of a list of names. Names that
are missing become directories. -/
def graft (t : FileTree) : List String → FileTree → FileTree
  | [], _ => t
  | name :: rest, directory children =>
    directory (setChild name (graft t rest ((children.lookup name).getD empty)) children)
  | _ :: _, file c => file c

/-! ## Listing -/

mutual
/-- Everything in a tree, the tree itself first and a directory before what it holds, siblings in
their order; each with the names on the way to it. -/
def walk (path : List String) : FileTree → List (List String × FileTree)
  | file c => [(path, file c)]
  | directory children => (path, directory children) :: walkChildren path children

def walkChildren (path : List String) : List (String × FileTree) → List (List String × FileTree)
  | [] => []
  | (name, t) :: rest => walk (path ++ [name]) t ++ walkChildren path rest
end

def isDirectory : FileTree → Bool
  | directory _ => true
  | file _ => false

def content? : FileTree → Option Content
  | file c => some c
  | directory _ => none

/-- Everything below a tree: names joined by slashes, with one more after a directory. -/
def listing (t : FileTree) : List String :=
  (t.walk []).filterMap fun (path, node) =>
    if path.isEmpty then none
    else some ("/".intercalate path ++ if node.isDirectory then "/" else "")

end FileTree
end Verdict
