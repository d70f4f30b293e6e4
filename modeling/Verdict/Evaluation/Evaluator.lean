import Verdict.Evaluation.Tree

/-!
# Evaluators

An evaluator answers questions about the rulesets, tasks and challenges of one archive. The tree of
a ruleset is built when it is first asked for and kept; a build that fails keeps nothing.
-/

namespace Verdict

structure Evaluator where
  archive : LoadedArchive
  /-- The trees built so far, by ruleset. -/
  trees : Table VersionedId Tree
  deriving Inhabited

/-- The result of a task. -/
structure TaskOutcome where
  task : VersionedId
  passed : Bool
  /-- The signals of the actions that fired, in the order declared. -/
  emitted : List String
  deriving DecidableEq, Repr

/-- The result of a challenge: one outcome for every task, in the order listed. -/
structure ChallengeOutcome where
  challenge : VersionedId
  tasks : List TaskOutcome
  deriving DecidableEq, Repr

/-- A challenge is passed with all its tasks. -/
def ChallengeOutcome.passed (o : ChallengeOutcome) : Bool := o.tasks.all (·.passed)

namespace Evaluator

/-- An evaluator that has built nothing yet. -/
def new (archive : LoadedArchive) : Evaluator := ⟨archive, Table.empty⟩

/-- The tree of a ruleset. -/
def tree (e : Evaluator) (key : VersionedId) : Evaluator × Except NotLoaded Tree :=
  match e.trees.find? key with
  | some t => (e, .ok t)
  | none =>
    match Tree.ofRuleset e.archive key with
    | .ok t => ({ e with trees := e.trees.insert key t }, .ok t)
    | .error missing => (e, .error missing)

/-- Evaluates a ruleset. -/
def evaluate (e : Evaluator) (key : VersionedId) (evidence : EvidenceSource) :
    Evaluator × Inquiry Bool :=
  match e.tree key with
  | (e, .ok t) => (e, t.evaluate evidence)
  | (e, .error missing) => (e, .ofResult (.error (.notLoaded missing)))

/-- Evaluates the ruleset of a task and fires the task's actions. -/
def evaluateTask (e : Evaluator) (key : VersionedId) (evidence : EvidenceSource) :
    Evaluator × Inquiry TaskOutcome :=
  match e.archive.task key with
  | .error missing => (e, .ofResult (.error (.notLoaded missing)))
  | .ok task =>
    let (e, inquiry) := e.evaluate task.ruleset evidence
    (e, inquiry.map fun passed => ⟨key, passed, task.emitted passed⟩)

/-- Evaluates tasks in order, up to the first that fails. -/
def evaluateTasks (e : Evaluator) (evidence : EvidenceSource) :
    List VersionedId → Evaluator × Inquiry (List TaskOutcome)
  | [] => (e, .ofResult (.ok []))
  | key :: keys =>
    match e.evaluateTask key evidence with
    | (e, ⟨asked, .error err⟩) => (e, ⟨asked, .error err⟩)
    | (e, ⟨asked, .ok outcome⟩) =>
      let (e, rest) := e.evaluateTasks evidence keys
      (e, (rest.map (outcome :: ·)).after asked)

/-- Evaluates every task of a challenge. -/
def evaluateChallenge (e : Evaluator) (key : VersionedId) (evidence : EvidenceSource) :
    Evaluator × Inquiry ChallengeOutcome :=
  match e.archive.challenge key with
  | .error missing => (e, .ofResult (.error (.notLoaded missing)))
  | .ok challenge =>
    let (e, inquiry) := e.evaluateTasks evidence challenge.tasks
    (e, inquiry.map fun tasks => ⟨key, tasks⟩)

end Evaluator
end Verdict
