import Verdict.Artifact.Reference

/-!
# Tasks and challenges

A task is decided by a ruleset and emits signals depending on the result. A challenge is a list of
tasks.
-/

namespace Verdict

/-- What a task reports. -/
inductive ResultType where
  | boolean
  | number
  | score
  | duration
  deriving DecidableEq, Repr, Inhabited

namespace ResultType

def all : List ResultType := [boolean, number, score, duration]

def name : ResultType → String
  | boolean => "BOOLEAN"
  | number => "NUMBER"
  | score => "SCORE"
  | duration => "DURATION"

def ofName? (s : String) : Option ResultType := all.find? fun t => t.name = s

def alternatives : List (String × ResultType) := all.map fun t => (t.name, t)

end ResultType

/-- When an action of a task fires. -/
inductive Trigger where
  | success
  | failure
  | always
  deriving DecidableEq, Repr, Inhabited

namespace Trigger

def all : List Trigger := [success, failure, always]

def name : Trigger → String
  | success => "SUCCESS"
  | failure => "FAILURE"
  | always => "ALWAYS"

def ofName? (s : String) : Option Trigger := all.find? fun t => t.name = s

def alternatives : List (String × Trigger) := all.map fun t => (t.name, t)

/-- Whether an action fires when its task has passed or not. -/
def fires : Trigger → Bool → Bool
  | success, passed => passed
  | failure, passed => !passed
  | always, _ => true

end Trigger

/-- A signal that a task emits. -/
structure Action where
  on : Trigger
  emit : String
  deriving DecidableEq, Repr, Inhabited

structure Task where
  ruleset : VersionedId
  resultType : ResultType
  actions : List Action
  description : String
  deriving DecidableEq, Repr, Inhabited

structure Challenge where
  tasks : List VersionedId
  deriving DecidableEq, Repr, Inhabited

namespace Action

def toJson (a : Action) : Json := .obj [("on", .str a.on.name), ("emit", .str a.emit)]

def ofDraft (d : Json.Draft) : Except Json.Flaw Action := do
  let trigger := Json.Draft.choice Trigger.alternatives
  let fields ← d.record [.required "on" trigger, .required "emit" Json.Draft.text]
  return ⟨← fields.get "on" trigger, ← fields.get "emit" Json.Draft.text⟩

end Action

namespace Task

/-- The signals that fire, in the order declared. -/
def emitted (t : Task) (passed : Bool) : List String :=
  (t.actions.filter fun a => a.on.fires passed).map (·.emit)

def toJson (t : Task) : Json :=
  .obj [("rulesetRef", t.ruleset.toJson), ("resultType", .str t.resultType.name),
    ("actions", .arr (t.actions.map Action.toJson)), ("description", .str t.description)]

/-- Reads a task; it may come without actions and without a description. -/
def ofDraft (d : Json.Draft) : Except Json.Flaw Task := do
  let resultType := Json.Draft.choice ResultType.alternatives
  let actions := Json.Draft.list Action.ofDraft
  let fields ← d.record [.required "rulesetRef" VersionedId.ofDraft,
    .required "resultType" resultType, .defaulted "actions" actions,
    .defaulted "description" Json.Draft.text]
  return ⟨← fields.get "rulesetRef" VersionedId.ofDraft, ← fields.get "resultType" resultType,
    ← fields.getD "actions" actions [], ← fields.getD "description" Json.Draft.text ""⟩

end Task

namespace Challenge

def toJson (c : Challenge) : Json := .obj [("tasks", .arr (c.tasks.map VersionedId.toJson))]

def ofDraft (d : Json.Draft) : Except Json.Flaw Challenge := do
  let tasks := Json.Draft.list VersionedId.ofDraft
  let fields ← d.record [.required "tasks" tasks]
  return ⟨← fields.get "tasks" tasks⟩

end Challenge
end Verdict
