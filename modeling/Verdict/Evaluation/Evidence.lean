import Verdict.Json.Printer
import Verdict.Json.Reader
import Verdict.Payload.Scalar
import Verdict.Table

/-!
# Evidence

The named values that rules are evaluated against. Evidence is written as a JSON object of scalars.
-/

namespace Verdict

/-- Scalars by field name. -/
abbrev Evidence := Table String Scalar

/-- Why a text is no evidence. -/
inductive EvidenceError where
  | notJson (flaw : Json.Flaw)
  | notObject (value : Json)
  | notScalar (field : String) (value : Json)
  deriving Repr

/-- The name of evidence text in messages. -/
def evidenceOrigin : String := "<evidence>"

def EvidenceError.message : EvidenceError → String
  | notJson flaw => "invalid JSON in archive entry " ++ evidenceOrigin ++ ": " ++ flaw.message
  | notObject value => "invalid evidence value for <root>: " ++ value.compact
  | notScalar field value => "invalid evidence value for " ++ field ++ ": " ++ value.compact

/-- What the JSON reader has to say about a text that is no evidence. -/
def EvidenceError.cause? : EvidenceError → Option String
  | notJson flaw => some flaw.message
  | notObject _ => none
  | notScalar _ _ => none

namespace Evidence

def empty : Evidence := Table.empty

/-- Adds the members of an object, up to the first that is no scalar. -/
def ofMembers (members : List (String × Json)) : Except EvidenceError Evidence := do
  let fields ← members.mapM fun (field, value) =>
    match Scalar.ofJson? value with
    | some s => .ok (field, s)
    | none => .error (.notScalar field value)
  return Table.ofList fields

def ofJson : Json → Except EvidenceError Evidence
  | .obj members => ofMembers members
  | j => .error (.notObject j)

/-- Reads evidence. -/
def ofText (text : String) : Except EvidenceError Evidence := do
  let j ← (Json.ofText text).mapError .notJson
  ofJson j

end Evidence
end Verdict
