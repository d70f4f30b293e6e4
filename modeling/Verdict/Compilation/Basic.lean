import Verdict.Artifact.Basic
import Verdict.Compilation.Context
import Verdict.Compilation.Document
import Verdict.Compilation.Expression
import Verdict.Digest.Sha256

/-!
# Compiling documents

Each kind of document is compiled to its payload and the references it depends on. A challenge is
compiled only if all its tasks are registered; the other kinds look at nothing but the document.
-/

namespace Verdict

/-- The name of this compiler in the metadata of artifacts. -/
def compilerVersion : String := "banyan-compiler-0.1.0"

/-- A payload and what it depends on. -/
structure Compiled where
  payload : Payload
  dependencies : List Reference

namespace Compilation

/-- Attributes a fault to the document it was found in. -/
def ofDocument {α : Type} (kind : Kind) (id : String) (x : Except DocumentFault α) :
    Except CompileError α :=
  x.mapError (.malformedSource kind id)

/-- Compiles one declared field. -/
def evidenceField (entry : Json) : Except DocumentFault EvidenceField := do
  let some members := entry.asObject?
    | throw .fieldNotObject
  let name ← requiredText members "name"
  let type ← requiredText members "type"
  let some valueType := ValueType.ofName? type
    | throw (.unknownValueType type)
  let required := ((Json.lookup "required" members).bind Json.asBool?).getD false
  return ⟨name, valueType, required⟩

/-- Compiles fields behind those before them; no name may occur twice. -/
def evidenceFields (before : Table String EvidenceField) :
    List Json → Except DocumentFault (Table String EvidenceField)
  | [] => .ok before
  | entry :: rest => do
    let field ← evidenceField entry
    if before.contains field.name then throw (.duplicateField field.name)
    evidenceFields (before.insert field.name field) rest

def evidenceType (d : Document) : Except CompileError Compiled := do
  let some entries := (Json.lookup "fields" d.spec).bind Json.asArray?
    | throw (.malformedSource .evidenceType d.id (.notArray "fields"))
  let fields ← ofDocument .evidenceType d.id (evidenceFields Table.empty entries)
  return ⟨.evidenceType ⟨fields⟩, []⟩

def rule (d : Document) : Except CompileError Compiled := do
  let read {α : Type} (x : Except DocumentFault α) := ofDocument .rule d.id x
  let input ← read (requiredText d.spec "input")
  let operator ← read (requiredText d.spec "operator")
  let ruleType ← read (requiredText d.spec "type")
  let raw := (Json.lookup "value" d.spec).getD .null
  let some value := Scalar.ofJson? raw
    | throw (.unsupportedRuleValue d.id raw)
  let dependencies ← match Json.lookup "evidenceTypeRef" d.spec with
    | none => pure []
    | some reference => do
      let r ← read (versionedRef "evidenceTypeRef" (some reference))
      pure [r.withKind .evidenceType]
  return ⟨.rule ⟨input, operator, value, ruleType⟩, dependencies⟩

def ruleset (d : Document) : Except CompileError Compiled := do
  let root ← match Json.lookup "expression" d.spec with
    | some expression => compileNode d.id expression
    | none =>
      match Json.lookup "ruleRef" d.spec with
      | some reference => ruleRef d.id reference (Json.lookup "version" d.spec)
      | none => expressionFault d.id .missing
  return ⟨.ruleset ⟨root⟩, root.ruleRefs.map fun r => r.withKind .rule⟩

/-- Compiles one action. -/
def action (a : Json) : Except DocumentFault Action := do
  let some members := a.asObject?
    | throw .actionNotObject
  let on ← requiredText members "on"
  let some trigger := Trigger.ofName? on
    | throw (.unknownTrigger on)
  return ⟨trigger, ← requiredText members "emit"⟩

def actions (value : Option Json) : Except DocumentFault (List Action) :=
  match value with
  | none => .ok []
  | some .null => .ok []
  | some (.arr items) => items.mapM action
  | some _ => .error (.notArray "actions")

def task (d : Document) : Except CompileError Compiled := ofDocument .task d.id do
  let reference ← versionedRef "rulesetRef" (Json.lookup "rulesetRef" d.spec)
  let type ← requiredText d.spec "resultType"
  let some resultType := ResultType.ofName? type
    | throw (.unknownResultType type)
  let actions ← actions (Json.lookup "actions" d.spec)
  let description := ((Json.lookup "description" d.spec).bind Json.asString?).getD ""
  return ⟨.task ⟨reference, resultType, actions, description⟩, [reference.withKind .ruleset]⟩

/-- Compiles a reference to a task, which has to be registered. -/
def taskRef (id : String) (registered : Registry) (entry : Json) :
    Except CompileError VersionedId := do
  let task ← ofDocument .challenge id (versionedRef "tasks[]" (some entry))
  if registered.contains (task.withKind .task) then return task
  else throw (.missingDependency (task.withKind .task))

def challenge (registered : Registry) (d : Document) : Except CompileError Compiled := do
  let some entries := (Json.lookup "tasks" d.spec).bind Json.asArray?
    | throw (.malformedSource .challenge d.id (.notArray "tasks"))
  let tasks ← entries.mapM (taskRef d.id registered)
  return ⟨.challenge ⟨tasks⟩, tasks.map fun t => t.withKind .task⟩

/-- Compiles the body of a document of a kind. -/
def body (kind : Kind) (registered : Registry) (d : Document) : Except CompileError Compiled :=
  match kind with
  | .evidenceType => evidenceType d
  | .rule => rule d
  | .ruleset => ruleset d
  | .task => task d
  | .challenge => challenge registered d

end Compilation

/-- Compiles a document as an artifact of a kind, built at the given time. -/
def compile (kind : Kind) (registered : Registry) (builtAt : UInt64) (source : Json) :
    Except CompileError Artifact := do
  let d ← Document.ofJson kind source
  let compiled ← Compilation.body kind registered d
  return ⟨d.id, d.version, ⟨compilerVersion, builtAt, Sha256.hexDigest source.canonical⟩,
    compiled.dependencies, compiled.payload⟩

end Verdict
