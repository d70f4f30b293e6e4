import Verdict.Diagnostic
import Verdict.Payload.Expression
import Verdict.Payload.EvidenceType
import Verdict.Payload.Task
import Verdict.Source.Library
import Verdict.Validation.Finding

/-!
# Validation

Every document is checked on its own before anything is compiled. All findings of a document are
reported, in the order of the checks.
-/

namespace Verdict.Validation

/-- The members of a document's spec, if there are any. -/
def spec? (content : Json) : Option (List (String × Json)) :=
  match (content.get? "spec").bind Json.asObject? with
  | some (m :: ms) => some (m :: ms)
  | _ => none

/-- A member that is a text. -/
def text? (members : List (String × Json)) (key : String) : Option String :=
  (Json.lookup key members).bind Json.asString?

/-! ## Evidence types -/

/-- Checks the name of a field against the names before it. -/
def fieldName (seen : List String) (name : String) : List Finding :=
  if name = "" then [.fieldWithoutName]
  else if name ∈ seen then [.duplicateField name]
  else []

/-- Checks the type of a field. -/
def fieldType (name : String) (type : Option String) : List Finding :=
  match type with
  | some type =>
    match ValueType.ofName? type with
    | some _ => []
    | none => [.unknownFieldType name type]
  | none => [.fieldWithoutType name]

/-- The name of a field, empty if it has none. -/
def nameOf (field : Json) : String := ((field.get? "name").bind Json.asString?).getD ""

def isRequired (field : Json) : Bool := ((field.get? "required").bind Json.asBool?).getD false

/-- Checks fields one after the other, with the names before them. -/
def evidenceFields (seen : List String) : List Json → List Finding
  | [] => []
  | field :: rest =>
    let name := nameOf field
    fieldName seen name ++ fieldType name ((field.get? "type").bind Json.asString?) ++
      evidenceFields (if name = "" then seen else name :: seen) rest

def evidenceType (spec : List (String × Json)) : List Finding :=
  match (Json.lookup "fields" spec).bind Json.asArray? with
  | none => [.fieldsNotArray]
  | some fields =>
    evidenceFields [] fields ++ (if fields.any isRequired then [] else [.noRequiredField])

/-! ## Rules -/

def ruleTypes : List String := ["THRESHOLD", "EQUALITY", "RANGE"]
def numericOperators : List String := ["<", "<=", ">", ">=", "==", "!="]
def equalityOperators : List String := ["==", "!="]

/-- Checks that the operator can compare with the value. -/
def operatorAndValue (operator : String) (value : Option Json) : List Finding :=
  match value with
  | some (.num _) => if operator ∈ numericOperators then [] else [.notNumeric operator]
  | some (.str _) => if operator ∈ equalityOperators then [] else [.onlyNumeric operator]
  | some (.bool _) => if operator ∈ equalityOperators then [] else [.onlyNumeric operator]
  | _ => [.valueNotScalar]

def rule (spec : List (String × Json)) : List Finding :=
  let type := match text? spec "type" with
    | some type => if type ∈ ruleTypes then [] else [.unknownRuleType type]
    | none => [.ruleTypeMissing]
  let input := match text? spec "input" with
    | some input => if input = "" then [.inputMissing] else []
    | none => [.inputMissing]
  let comparison := match text? spec "operator" with
    | some operator => operatorAndValue operator (Json.lookup "value" spec)
    | none => [.operatorMissing]
  type ++ input ++ comparison

/-! ## Rulesets -/

mutual
/-- Checks a node of an expression and the nodes below it. -/
def node : Json → List Finding
  | .obj members =>
    if (Json.lookup "ruleRef" members).isSome then []
    else match text? members "operator" with
      | none => [.nodeUnclear]
      | some operator =>
        (if (Connective.ofName? operator).isSome then [] else [.unknownConnective operator]) ++
          operands members
  | _ => [.nodeNotObject]

/-- Checks what the member `operands` holds. -/
def operands : List (String × Json) → List Finding
  | [] => [.operandsNotArray]
  | (key, value) :: rest => if key = "operands" then operandItems value else operands rest

def operandItems : Json → List Finding
  | .arr items => (if items.length < 2 then [.fewOperands] else []) ++ nodes items
  | _ => [.operandsNotArray]

def nodes : List Json → List Finding
  | [] => []
  | item :: rest => node item ++ nodes rest
end

def ruleset (spec : List (String × Json)) : List Finding :=
  match Json.lookup "expression" spec, Json.lookup "ruleRef" spec with
  | some expression, _ => node expression
  | none, some _ => []
  | none, none => [.noExpression]

/-! ## Tasks -/

def action : Json → List Finding
  | .obj members =>
    let extra := match members.find? fun m => m.1 ≠ "on" ∧ m.1 ≠ "emit" with
      | some m => [.unexpectedActionField m.1]
      | none => []
    let trigger := match text? members "on" with
      | some on => if (Trigger.ofName? on).isSome then [] else [.unknownTrigger on]
      | none => [.triggerMissing]
    let emit := if (text? members "emit").isSome then [] else [.emitNotString]
    extra ++ trigger ++ emit
  | _ => [.actionNotObject]

def task (spec : List (String × Json)) : List Finding :=
  let reference := match (Json.lookup "rulesetRef" spec).bind Json.asObject? with
    | some members => if (text? members "id").isSome then [] else [.rulesetRefWithoutId]
    | none => [.rulesetRefNotObject]
  let type := match text? spec "resultType" with
    | some type => if (ResultType.ofName? type).isSome then [] else [.unknownResultType type]
    | none => [.resultTypeMissing]
  let actions := match Json.lookup "actions" spec with
    | none => []
    | some (.arr items) => items.flatMap action
    | some _ => [.actionsNotArray]
  reference ++ type ++ actions

/-! ## Challenges -/

def forbiddenFields : List String := ["actions", "operator", "expression"]

/-- Checks the id of a task reference against the ids before it. -/
def taskId (seen : List String) (id : Option String) : List Finding :=
  match id with
  | some id => if id ∈ seen then [.duplicateTask id] else []
  | none => [.taskWithoutId]

/-- Checks the version of a task reference, if it has one. -/
def taskVersion (version : Option Json) : List Finding :=
  match version with
  | none => []
  | some v => match v.asNat? with
    | some n => if 1 ≤ n then [] else [.badTaskVersion v]
    | none => [.badTaskVersion v]

/-- Checks task references one after the other, with the ids before them. -/
def taskRefs (seen : List String) : List Json → List Finding
  | [] => []
  | .obj members :: rest =>
    let id := text? members "id"
    taskId seen id ++ taskVersion (Json.lookup "version" members) ++
      taskRefs (id.toList ++ seen) rest
  | _ :: rest => .taskNotObject :: taskRefs seen rest

def challenge (spec : List (String × Json)) : List Finding :=
  let forbidden := (forbiddenFields.filter fun f => (Json.lookup f spec).isSome).map
    Finding.forbiddenField
  let tasks := match (Json.lookup "tasks" spec).bind Json.asArray? with
    | some (t :: ts) => taskRefs [] (t :: ts)
    | _ => [.noTasks]
  forbidden ++ tasks

/-! ## Documents -/

/-- What is wrong with the spec of a document of a kind. -/
def ofSpec (kind : Kind) (content : Json) : List Finding :=
  match spec? content with
  | none => [.noSpec]
  | some spec =>
    match kind with
    | .evidenceType => evidenceType spec
    | .rule => rule spec
    | .ruleset => ruleset spec
    | .task => task spec
    | .challenge => challenge spec

/-- What is wrong with a document: its id first, then its spec. -/
def findings (u : SourceUnit) : List Finding :=
  ((idFault? u.id).map (Finding.badId u.id)).toList ++ ofSpec u.kind u.content

/-- A finding as a diagnostic of its document. -/
def diagnostic (u : SourceUnit) (f : Finding) : Diagnostic :=
  ⟨.error, some u.origin, u.kind.name ++ " " ++ Text.quoted u.id ++ ": " ++ f.message⟩

/-- The diagnostics of a whole library, document by document. -/
def ofLibrary (l : Library) : List Diagnostic :=
  l.units.flatMap fun u => (findings u).map (diagnostic u)

end Verdict.Validation
