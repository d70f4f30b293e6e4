import Verdict.Artifact.Reference
import Verdict.Json.Printer

/-!
# Errors of compilation

Each constructor is one cause; the wording is in the `message` functions.
-/

namespace Verdict

/-- What is wrong with a document that cannot be compiled. -/
inductive DocumentFault where
  | idMissing
  | idInvalid (id : String) (fault : IdFault)
  | versionInvalid
  | specNotObject
  | notString (field : String)
  | notArray (field : String)
  | notObject (field : String)
  | fieldNotObject
  | actionNotObject
  | unknownValueType (name : String)
  | unknownResultType (name : String)
  | unknownTrigger (name : String)
  | duplicateField (name : String)
  | refIdMissing (field : String)
  | refIdInvalid (field id : String) (fault : IdFault)
  | refVersionInvalid (field : String)
  deriving DecidableEq, Repr

def DocumentFault.message : DocumentFault → String
  | idMissing => "`id` must be a non-empty string"
  | idInvalid id fault => fault.message id
  | versionInvalid => "`version` must be a positive integer"
  | specNotObject => "`spec` must be an object"
  | notString field => "`" ++ field ++ "` must be a string"
  | notArray field => "`" ++ field ++ "` must be an array"
  | notObject field => "`" ++ field ++ "` must be an object"
  | fieldNotObject => "field must be an object"
  | actionNotObject => "action must be an object"
  | unknownValueType name => "unknown value type `" ++ name ++ "`"
  | unknownResultType name => "unknown result type `" ++ name ++ "`"
  | unknownTrigger name => "unknown action trigger `" ++ name ++ "`"
  | duplicateField name => "duplicate field `" ++ name ++ "`"
  | refIdMissing field => "`" ++ field ++ ".id` must be a non-empty string"
  | refIdInvalid field id fault => "`" ++ field ++ ".id`: " ++ fault.message id
  | refVersionInvalid field => "`" ++ field ++ ".version` must be a positive integer"

/-- What is wrong with the expression of a ruleset. -/
inductive ExpressionFault where
  | missing
  | notObject (value : Json)
  | unclearNode
  | unknownConnective (name : String)
  | noOperands (operator : String)
  | refInvalid (id : String) (fault : IdFault)
  | refIdMissing
  | refIdInvalid (id : String) (fault : IdFault)
  | refUnsupported (value : Json)
  deriving Repr

def ExpressionFault.message : ExpressionFault → String
  | missing => "expected `expression` or `ruleRef`"
  | notObject value => "expression node must be an object, got " ++ value.compact
  | unclearNode => "node must be a `ruleRef` or an `operator`/`operands` pair"
  | unknownConnective name => "unknown logical operator `" ++ name ++ "`"
  | noOperands operator => operator ++ " needs a non-empty `operands` array"
  | refInvalid id fault => "`ruleRef`: " ++ fault.message id
  | refIdMissing => "`ruleRef.id` must be a non-empty string"
  | refIdInvalid id fault => "`ruleRef.id`: " ++ fault.message id
  | refUnsupported value => "unsupported `ruleRef` " ++ value.compact

inductive CompileError where
  | missingDependency (reference : Reference)
  | contextFrozen (reference : Reference)
  | contextNotFrozen (operation : String)
  | malformedSource (kind : Kind) (id : String) (fault : DocumentFault)
  | emptySpec (kind : Kind) (id : String)
  | unsupportedRuleValue (id : String) (value : Json)
  | invalidExpression (id : String) (fault : ExpressionFault)
  | emptyOutput
  | outputIsFile (path : String)
  deriving Repr

/-- The stable classes of compile errors. -/
inductive CompileErrorCode where
  | missingDependency
  | astBuildFailed
  | contextCorrupted
  | contextFrozen
  | internalCompilerError
  deriving DecidableEq, Repr

def CompileErrorCode.name : CompileErrorCode → String
  | missingDependency => "MISSING_DEPENDENCY"
  | astBuildFailed => "AST_BUILD_FAILED"
  | contextCorrupted => "CONTEXT_CORRUPTED"
  | contextFrozen => "CONTEXT_FROZEN"
  | internalCompilerError => "INTERNAL_COMPILER_ERROR"

namespace CompileError

def code : CompileError → CompileErrorCode
  | missingDependency _ => .missingDependency
  | contextFrozen _ => .contextFrozen
  | contextNotFrozen _ => .contextCorrupted
  | malformedSource _ _ _ => .astBuildFailed
  | emptySpec _ _ => .astBuildFailed
  | unsupportedRuleValue _ _ => .astBuildFailed
  | invalidExpression _ _ => .astBuildFailed
  | emptyOutput => .internalCompilerError
  | outputIsFile _ => .internalCompilerError

def message : CompileError → String
  | missingDependency r => "missing dependency: " ++ r.text
  | contextFrozen r => "compilation context is frozen, cannot register " ++ r.text
  | contextNotFrozen operation => "compilation context must be frozen before " ++ operation
  | malformedSource kind id fault =>
    kind.name ++ " " ++ Text.quoted id ++ ": " ++ fault.message
  | emptySpec kind id => kind.name ++ " " ++ Text.quoted id ++ ": spec is missing or empty"
  | unsupportedRuleValue id value =>
    "rule " ++ Text.quoted id ++ ": unsupported rule value " ++ value.compact
  | invalidExpression id fault =>
    "ruleset " ++ Text.quoted id ++ ": invalid expression: " ++ fault.message
  | emptyOutput => "invalid configuration: output_dir must not be empty"
  | outputIsFile path => "invalid configuration: output_dir " ++ path ++ " is a file"

end CompileError
end Verdict
