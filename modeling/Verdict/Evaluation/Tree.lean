import Verdict.Evaluation.Operator
import Verdict.Payload.Expression

/-!
# Evaluation of rule trees

A tree is a ruleset expression with every rule in its place. Evaluation goes through the operands of
a node from left to right and stops as soon as one of them decides the node. An operand whose
evidence is missing counts as false, so a missing field is only reported by a tree that is a bare
rule; any other error stops the evaluation.
-/

namespace Verdict

/-- A ruleset expression whose references have been replaced by rules. -/
inductive Tree where
  | rule (key : VersionedId) (body : Rule)
  | logical (operator : Connective) (children : List Tree)
  deriving Repr, Inhabited, BEq

/-- Where evidence comes from: the value of a field, if it has one. -/
abbrev EvidenceSource := String → Option Scalar

/-- The result of an evaluation with the fields it has asked for, in order. -/
structure Inquiry (α : Type) where
  asked : List String
  result : Except EvaluationError α
  deriving Repr

namespace Inquiry

variable {α β : Type}

/-- A result that asks for nothing. -/
def ofResult (result : Except EvaluationError α) : Inquiry α := ⟨[], result⟩

/-- The same inquiry made after some fields were asked for. -/
def after (fields : List String) (i : Inquiry α) : Inquiry α := ⟨fields ++ i.asked, i.result⟩

def map (f : α → β) (i : Inquiry α) : Inquiry β := ⟨i.asked, i.result.map f⟩

end Inquiry

/-- The operand that decides a node by itself: false for AND and true for OR. -/
def Connective.decisive : Connective → Bool
  | and => false
  | or => true

/-- What an operand counts as inside a node: missing evidence is false. -/
def settle : Except EvaluationError Bool → Except EvaluationError Bool
  | .error (.missingEvidence _) => .ok false
  | r => r

/-- Evaluates a rule: its field is looked up before its operator is read. -/
def Rule.evaluate (evidence : EvidenceSource) (r : Rule) : Inquiry Bool where
  asked := [r.input]
  result :=
    match evidence r.input with
    | none => .error (.missingEvidence r.input)
    | some actual => do (← Operator.ofName r.operator).apply r.input actual r.value

namespace Tree

mutual
def evaluate (evidence : EvidenceSource) : Tree → Inquiry Bool
  | rule _ body => body.evaluate evidence
  | logical operator children => evaluateOperands evidence operator children

/-- Evaluates the operands of a node up to the one that decides it. -/
def evaluateOperands (evidence : EvidenceSource) (operator : Connective) :
    List Tree → Inquiry Bool
  | [] => .ofResult (.ok !operator.decisive)
  | t :: ts =>
    let first := evaluate evidence t
    match settle first.result with
    | .error e => ⟨first.asked, .error e⟩
    | .ok b =>
      if b = operator.decisive then ⟨first.asked, .ok b⟩
      else (evaluateOperands evidence operator ts).after first.asked
end

mutual
/-- The number of nodes. -/
def size : Tree → Nat
  | rule _ _ => 1
  | logical _ children => 1 + sizeOfAll children

def sizeOfAll : List Tree → Nat
  | [] => 0
  | t :: ts => size t + sizeOfAll ts
end

mutual
/-- The rules at the leaves, from left to right. -/
def leaves : Tree → List Rule
  | rule _ body => [body]
  | logical _ children => leavesOfAll children

def leavesOfAll : List Tree → List Rule
  | [] => []
  | t :: ts => leaves t ++ leavesOfAll ts
end

/-! ## Building -/

mutual
/-- Puts loaded rules in the place of references, from left to right; the first that is not loaded
ends it. -/
def ofExpression (l : LoadedArchive) : Expression → Except NotLoaded Tree
  | .ruleRef key =>
    match l.rule key with
    | .ok body => .ok (rule key body)
    | .error e => .error e
  | .logical operator operands =>
    match ofExpressions l operands with
    | .ok children => .ok (logical operator children)
    | .error e => .error e

def ofExpressions (l : LoadedArchive) : List Expression → Except NotLoaded (List Tree)
  | [] => .ok []
  | e :: es =>
    match ofExpression l e with
    | .error missing => .error missing
    | .ok t =>
      match ofExpressions l es with
      | .error missing => .error missing
      | .ok ts => .ok (t :: ts)
end

/-- The tree of a loaded ruleset. -/
def ofRuleset (l : LoadedArchive) (key : VersionedId) : Except NotLoaded Tree :=
  (l.ruleset key).bind fun r => ofExpression l r.root

end Tree
end Verdict
