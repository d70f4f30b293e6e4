import Verdict.Payload.EvidenceType
import Verdict.Payload.Expression
import Verdict.Payload.Rule
import Verdict.Payload.Task

/-!
# Payloads

What an artifact of each kind holds. The JSON form does not say its kind, so it is read with the
kind given.
-/

namespace Verdict

inductive Payload where
  | evidenceType (body : EvidenceType)
  | rule (body : Rule)
  | ruleset (body : Ruleset)
  | task (body : Task)
  | challenge (body : Challenge)
  deriving Repr, Inhabited

namespace Payload

def kind : Payload → Kind
  | evidenceType _ => .evidenceType
  | rule _ => .rule
  | ruleset _ => .ruleset
  | task _ => .task
  | challenge _ => .challenge

def toJson : Payload → Json
  | evidenceType b => b.toJson
  | rule b => b.toJson
  | ruleset b => b.toJson
  | task b => b.toJson
  | challenge b => b.toJson

/-- Reads the payload of an artifact of the given kind; nothing if the value has another shape. -/
def ofJson? (kind : Kind) (j : Json) : Option Payload :=
  let d := j.toDraft
  match kind with
  | .evidenceType => (EvidenceType.ofDraft d).toOption.map .evidenceType
  | .rule => (Rule.ofDraft d).toOption.map .rule
  | .ruleset => (Ruleset.ofDraft d).toOption.map .ruleset
  | .task => (Task.ofDraft d).toOption.map .task
  | .challenge => (Challenge.ofDraft d).toOption.map .challenge

def asEvidenceType? : Payload → Option EvidenceType
  | evidenceType b => some b
  | _ => none

def asRule? : Payload → Option Rule
  | rule b => some b
  | _ => none

def asRuleset? : Payload → Option Ruleset
  | ruleset b => some b
  | _ => none

def asTask? : Payload → Option Task
  | task b => some b
  | _ => none

def asChallenge? : Payload → Option Challenge
  | challenge b => some b
  | _ => none

/-- Equality of payloads, where the fields of an evidence type count as a map. -/
def same : Payload → Payload → Bool
  | evidenceType a, evidenceType b => a.fields.sameEntries b.fields
  | rule a, rule b => a = b
  | ruleset a, ruleset b => a = b
  | task a, task b => a = b
  | challenge a, challenge b => a = b
  | _, _ => false

end Payload
end Verdict
