import Verdict.Artifact.Kind
import Verdict.FileTree.Path
import Verdict.Json.Reader

/-!
# Source documents

A source document is a JSON object that says its kind, id and version. Nothing else about it is
looked at before it is validated and compiled.
-/

namespace Verdict

/-- A parsed document and where it came from. -/
structure SourceUnit where
  kind : Kind
  id : String
  version : UInt32
  content : Json
  origin : String
  deriving Repr, Inhabited

/-- Why documents could not be collected. -/
inductive SourceError where
  /-- A file that cannot be read as text; without a fault, its bytes are not UTF-8. -/
  | unreadable (path : String) (fault : Option FileFault)
  | notJson (origin : String) (flaw : Json.Flaw)
  | missingField (origin field : String)
  | unknownKind (origin kind : String)
  /-- A directory tree that cannot be followed. -/
  | untraversable (path : String) (fault : FileFault)
  /-- A file that is no archive. -/
  | notArchive
  deriving DecidableEq, Repr

def SourceError.message : SourceError → String
  | unreadable path fault =>
    "failed to read " ++ path ++ ": " ++ (fault.map FileFault.message).getD notTextMessage
  | notJson origin flaw => origin ++ ": invalid JSON: " ++ flaw.message
  | missingField origin field => origin ++ ": missing or invalid `" ++ field ++ "`"
  | unknownKind origin kind => origin ++ ": unknown kind `" ++ kind ++ "`"
  | untraversable path fault =>
    "directory traversal error: IO error for operation on " ++ path ++ ": " ++ fault.message
  | notArchive => "zip error: " ++ notArchiveMessage

namespace SourceUnit

/-- A version: a whole number from one that fits 32 bits. -/
def version? (j : Json) : Option UInt32 :=
  j.asNat?.bind fun n => if 1 ≤ n ∧ n < UInt32.size then some (UInt32.ofNat n) else none

/-- A text that is not empty. -/
def nonEmpty? (j : Json) : Option String :=
  j.asString?.bind fun s => if s = "" then none else some s

/-- Reads the identity of a document. -/
def ofJson (origin : String) (content : Json) : Except SourceError SourceUnit := do
  let some kindName := (content.get? "kind").bind Json.asString?
    | throw (.missingField origin "kind")
  let some kind := Kind.ofName? kindName
    | throw (.unknownKind origin kindName)
  let some id := (content.get? "id").bind nonEmpty?
    | throw (.missingField origin "id")
  let some version := (content.get? "version").bind version?
    | throw (.missingField origin "version")
  return ⟨kind, id, version, content, origin⟩

/-- Reads the text of a document. -/
def ofText (origin text : String) : Except SourceError SourceUnit := do
  let content ← (Json.ofText text).mapError (.notJson origin)
  ofJson origin content

end SourceUnit
end Verdict
