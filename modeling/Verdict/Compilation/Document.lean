import Verdict.Compilation.Error
import Verdict.Source.Unit

/-!
# Reading documents

What the compilers of all kinds read from a document: its id, version and spec, texts, and
references to other artifacts.
-/

namespace Verdict

/-- The identity and the body of a document. -/
structure Document where
  id : String
  version : Version
  spec : List (String × Json)

namespace Document

/-- Reads the head of a document that is compiled as the given kind. -/
def ofJson (kind : Kind) (source : Json) : Except CompileError Document := do
  let some id := (source.get? "id").bind SourceUnit.nonEmpty?
    | throw (.malformedSource kind "" .idMissing)
  if let some fault := idFault? id then throw (.malformedSource kind id (.idInvalid id fault))
  let some version := (source.get? "version").bind SourceUnit.version?
    | throw (.malformedSource kind id .versionInvalid)
  match source.get? "spec" with
  | some (.obj (m :: ms)) => return ⟨id, version, m :: ms⟩
  | some (.obj []) => throw (.emptySpec kind id)
  | some .null => throw (.emptySpec kind id)
  | none => throw (.emptySpec kind id)
  | some _ => throw (.malformedSource kind id .specNotObject)

end Document

/-- A member that has to be a text. -/
def requiredText (members : List (String × Json)) (field : String) : Except DocumentFault String :=
  match (Json.lookup field members).bind Json.asString? with
  | some s => .ok s
  | none => .error (.notString field)

/-- The version of a reference in `field`; without one it is the first. -/
def refVersion (field : String) (value : Option Json) : Except DocumentFault Version :=
  match value with
  | none => .ok 1
  | some v =>
    match SourceUnit.version? v with
    | some version => .ok version
    | none => .error (.refVersionInvalid field)

/-- A reference in `field`: an object with an id and perhaps a version. -/
def versionedRef (field : String) (value : Option Json) : Except DocumentFault VersionedId := do
  let some members := value.bind Json.asObject?
    | throw (.notObject field)
  let some id := (Json.lookup "id" members).bind SourceUnit.nonEmpty?
    | throw (.refIdMissing field)
  if let some fault := idFault? id then throw (.refIdInvalid field id fault)
  return ⟨id, ← refVersion field (Json.lookup "version" members)⟩

end Verdict
