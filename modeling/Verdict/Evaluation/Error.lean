import Verdict.Archive.Loaded

/-!
# Errors of evaluation

A missing field is the one error that the nodes of a ruleset recover from; the others end the
evaluation.
-/

namespace Verdict

inductive EvaluationError where
  | missingEvidence (field : String)
  /-- An ordering asked of evidence that is no number. -/
  | evidenceNotNumeric (field : String) (actual : Scalar)
  /-- An ordering asked of a literal that is no number. -/
  | literalNotNumeric (field : String) (literal : Scalar)
  | unsupportedOperator (operator : String)
  | notLoaded (cause : NotLoaded)
  deriving DecidableEq, Repr

namespace EvaluationError

def message : EvaluationError → String
  | missingEvidence field => "missing evidence field: " ++ field
  | evidenceNotNumeric field actual =>
    "invalid evidence type for " ++ field ++ ": expected a number, got " ++ actual.typeName ++ " "
      ++ actual.display
  | literalNotNumeric field literal =>
    "invalid evidence type for " ++ field ++ ": rule compares against non-numeric "
      ++ literal.display
  | unsupportedOperator operator => "unsupported operator: " ++ operator
  | notLoaded cause => cause.message

def isMissingEvidence : EvaluationError → Bool
  | missingEvidence _ => true
  | _ => false

end EvaluationError
end Verdict
