import Verdict.Compilation.Document
import Verdict.Payload.Expression

/-!
# Compiling expressions

An expression document is an object with a `ruleRef`, or one with an `operator` and its `operands`.
A rule is referred to by its id, with the version beside it, or by an object with both.
-/

namespace Verdict

/-- An error about the expression of the ruleset with an id. -/
def expressionFault {α : Type} (id : String) (fault : ExpressionFault) : Except CompileError α :=
  .error (.invalidExpression id fault)

/-- The version of a reference to a rule. What is wrong with it is a fault of the document. -/
def ruleVersion (id : String) (value : Option Json) : Except CompileError Version :=
  (refVersion "ruleRef" value).mapError (.malformedSource .ruleset id)

/-- Reads a reference to a rule in the ruleset with an id; `beside` is the version beside it. -/
def ruleRef (id : String) (reference : Json) (beside : Option Json) :
    Except CompileError Expression := do
  match reference with
  | .obj members =>
    let some rule := (Json.lookup "id" members).bind SourceUnit.nonEmpty?
      | expressionFault id .refIdMissing
    if let some fault := idFault? rule then expressionFault id (.refIdInvalid rule fault)
    return .ruleRef ⟨rule, ← ruleVersion id (Json.lookup "version" members)⟩
  | other =>
    let some rule := SourceUnit.nonEmpty? other
      | expressionFault id (.refUnsupported other)
    if let some fault := idFault? rule then expressionFault id (.refInvalid rule fault)
    return .ruleRef ⟨rule, ← ruleVersion id beside⟩

mutual
/-- Compiles a node of the ruleset with an id, and the nodes below it. -/
def compileNode (id : String) : Json → Except CompileError Expression
  | .obj members =>
    match Json.lookup "ruleRef" members with
    | some reference => ruleRef id reference (Json.lookup "version" members)
    | none =>
      match (Json.lookup "operator" members).bind Json.asString? with
      | none => expressionFault id .unclearNode
      | some name =>
        match Connective.ofName? name with
        | none => expressionFault id (.unknownConnective name)
        | some operator =>
          match compileOperands id members with
          | none => expressionFault id (.noOperands operator.name)
          | some operands => operands.map (.logical operator)
  | value => expressionFault id (.notObject value)

/-- Compiles what the member `operands` holds, if it is an array with an item in it. -/
def compileOperands (id : String) :
    List (String × Json) → Option (Except CompileError (List Expression))
  | [] => none
  | (key, value) :: rest =>
    if key = "operands" then compileItems id value else compileOperands id rest

def compileItems (id : String) : Json → Option (Except CompileError (List Expression))
  | .arr [] => none
  | .arr (item :: rest) => some (compileNodes id (item :: rest))
  | _ => none

def compileNodes (id : String) : List Json → Except CompileError (List Expression)
  | [] => .ok []
  | item :: rest => do
    let e ← compileNode id item
    let es ← compileNodes id rest
    return e :: es
end

end Verdict
