import Verdict.Artifact.Reference
import Verdict.Json.Printer

/-!
# Findings of validation

What can be wrong with a document before it is compiled.
-/

namespace Verdict

inductive Finding where
  /-- The id cannot be used as a file name. -/
  | badId (id : String) (fault : IdFault)
  | noSpec
  -- evidence types
  | fieldsNotArray
  | fieldWithoutName
  | duplicateField (name : String)
  | unknownFieldType (name type : String)
  | fieldWithoutType (name : String)
  | noRequiredField
  -- rules
  | unknownRuleType (type : String)
  | ruleTypeMissing
  | inputMissing
  | operatorMissing
  | notNumeric (operator : String)
  | onlyNumeric (operator : String)
  | valueNotScalar
  -- rulesets
  | nodeNotObject
  | unknownConnective (operator : String)
  | nodeUnclear
  | fewOperands
  | operandsNotArray
  | noExpression
  -- tasks
  | rulesetRefWithoutId
  | rulesetRefNotObject
  | unknownResultType (type : String)
  | resultTypeMissing
  | actionsNotArray
  | actionNotObject
  | unexpectedActionField (name : String)
  | unknownTrigger (trigger : String)
  | triggerMissing
  | emitNotString
  -- challenges
  | forbiddenField (name : String)
  | noTasks
  | taskNotObject
  | duplicateTask (id : String)
  | taskWithoutId
  | badTaskVersion (version : Json)
  deriving Repr

/-- The wording of a finding. -/
def Finding.message : Finding → String
  | badId id fault => fault.message id
  | noSpec => "`spec` must be a non-empty object"
  | fieldsNotArray => "`fields` must be an array"
  | fieldWithoutName => "every field needs a non-empty `name`"
  | duplicateField name => "duplicate field `" ++ name ++ "`"
  | unknownFieldType name type => "field `" ++ name ++ "` has unknown type `" ++ type ++ "`"
  | fieldWithoutType name => "field `" ++ name ++ "` is missing `type`"
  | noRequiredField => "at least one field must be required"
  | unknownRuleType type => "unknown rule type `" ++ type ++ "`"
  | ruleTypeMissing => "`type` is required"
  | inputMissing => "`input` must be a non-empty string"
  | operatorMissing => "`operator` is required"
  | notNumeric operator => "operator `" ++ operator ++ "` cannot compare numbers"
  | onlyNumeric operator =>
    "operator `" ++ operator ++ "` is not allowed for string or boolean values"
  | valueNotScalar => "`value` must be a number, string or boolean"
  | nodeNotObject => "expression nodes must be objects"
  | unknownConnective operator => "unknown logical operator `" ++ operator ++ "`"
  | nodeUnclear => "node must be a `ruleRef` or an `operator`/`operands` pair"
  | fewOperands => "logical nodes need at least two operands"
  | operandsNotArray => "`operands` must be an array"
  | noExpression => "either `expression` or `ruleRef` is required"
  | rulesetRefWithoutId => "`rulesetRef.id` is required"
  | rulesetRefNotObject => "`rulesetRef` must be an object"
  | unknownResultType type => "unknown result type `" ++ type ++ "`"
  | resultTypeMissing => "`resultType` is required"
  | actionsNotArray => "`actions` must be an array"
  | actionNotObject => "actions must be objects"
  | unexpectedActionField name => "unexpected action field `" ++ name ++ "`"
  | unknownTrigger trigger => "unknown action trigger `" ++ trigger ++ "`"
  | triggerMissing => "action `on` is required"
  | emitNotString => "action `emit` must be a string"
  | forbiddenField name => "`" ++ name ++ "` is not allowed in a challenge"
  | noTasks => "at least one task is required"
  | taskNotObject => "task references must be objects"
  | duplicateTask id => "duplicate task `" ++ id ++ "`"
  | taskWithoutId => "task references need an `id`"
  | badTaskVersion version => "task version " ++ version.compact ++ " must be >= 1"

end Verdict
