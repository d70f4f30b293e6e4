import Verdict.Evaluation.Error

/-!
# Operators

The comparisons a rule can make. The four orderings compare binary64 numbers and need a number on
both sides; equality compares values of any kind.
-/

namespace Verdict

inductive Operator where
  | greater
  | less
  | atLeast
  | atMost
  | equal
  | notEqual
  deriving DecidableEq, Repr, Inhabited

namespace Operator

def all : List Operator := [greater, less, atLeast, atMost, equal, notEqual]

/-- How an operator is written in a rule. -/
def name : Operator → String
  | greater => ">"
  | less => "<"
  | atLeast => ">="
  | atMost => "<="
  | equal => "=="
  | notEqual => "!="

def ofName? (s : String) : Option Operator := all.find? fun o => o.name = s

/-- The operator a rule asks for. -/
def ofName (s : String) : Except EvaluationError Operator :=
  match ofName? s with
  | some o => .ok o
  | none => .error (.unsupportedOperator s)

/-- Both sides of an ordering as numbers; evidence is looked at first. -/
def numbers (field : String) (actual literal : Scalar) :
    Except EvaluationError (Binary64 × Binary64) :=
  match actual.toBinary64?, literal.toBinary64? with
  | none, _ => .error (.evidenceNotNumeric field actual)
  | some _, none => .error (.literalNotNumeric field literal)
  | some a, some b => .ok (a, b)

/-- Compares the evidence found in a field with a rule's literal. -/
def apply (o : Operator) (field : String) (actual literal : Scalar) :
    Except EvaluationError Bool :=
  match o with
  | greater => (numbers field actual literal).map fun (a, b) => b.less a
  | less => (numbers field actual literal).map fun (a, b) => a.less b
  | atLeast => (numbers field actual literal).map fun (a, b) => b.atMost a
  | atMost => (numbers field actual literal).map fun (a, b) => a.atMost b
  | equal => .ok (actual.sameValue literal)
  | notEqual => .ok !(actual.sameValue literal)

end Operator
end Verdict
