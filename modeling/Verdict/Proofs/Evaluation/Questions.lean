import Verdict.Proofs.Evaluation.Consultation

/-!
# Sequences of questions

An evaluator is asked one question after another and keeps the trees it builds. A tree that is kept
is the one that would be built again, so every answer is the answer of an evaluator that was asked
nothing before.
-/

namespace Verdict

/-- A question to an evaluator. -/
inductive Question where
  | tree (key : VersionedId)
  | ruleset (key : VersionedId) (evidence : EvidenceSource)
  | task (key : VersionedId) (evidence : EvidenceSource)
  | challenge (key : VersionedId) (evidence : EvidenceSource)

/-- The reference that the answer to a question begins with. -/
def Question.subject : Question → Reference
  | tree key => key.withKind .ruleset
  | ruleset key _ => key.withKind .ruleset
  | task key _ => key.withKind .task
  | challenge key _ => key.withKind .challenge

/-- What an evaluator answers; an inquiry tells also which fields were asked for. -/
inductive Answer where
  | tree (result : Except NotLoaded Tree)
  | ruleset (inquiry : Inquiry Bool)
  | task (inquiry : Inquiry TaskOutcome)
  | challenge (inquiry : Inquiry ChallengeOutcome)

namespace Evaluator

/-- Asks one question. The evaluator is the one afterwards. -/
def ask (e : Evaluator) : Question → Evaluator × Answer
  | .tree key => (e.tree key).map id .tree
  | .ruleset key evidence => (e.evaluate key evidence).map id .ruleset
  | .task key evidence => (e.evaluateTask key evidence).map id .task
  | .challenge key evidence => (e.evaluateChallenge key evidence).map id .challenge

/-- Asks questions in order. -/
def askAll (e : Evaluator) : List Question → Evaluator × List Answer
  | [] => (e, [])
  | q :: qs =>
    let asked := e.ask q
    let rest := asked.1.askAll qs
    (rest.1, asked.2 :: rest.2)

variable {l : LoadedArchive} {e e' : Evaluator}

/-! ## What is kept -/

theorem Serves.ask (h : e.Serves l) (q : Question) : (e.ask q).1.Serves l := by
  cases q with
  | tree key => exact (h.tree key).1
  | ruleset key evidence => exact (h.evaluate key evidence).1
  | task key evidence => exact h.evaluateTask key evidence
  | challenge key evidence => exact h.evaluateChallenge key evidence

theorem Serves.askAll (h : e.Serves l) (qs : List Question) : (e.askAll qs).1.Serves l := by
  induction qs generalizing e with
  | nil => exact h
  | cons q qs ih => exact ih (h.ask q)

section Failure

variable {key : VersionedId} {missing : NotLoaded}

/-- A tree that cannot be built is not kept, and nothing else changes. -/
theorem Serves.tree_of_error (h : e.Serves l) (hbuild : Tree.ofRuleset l key = .error missing) :
    e.tree key = (e, .error missing) := by
  have hnone : e.trees.find? key = none := by
    cases hkept : e.trees.find? key with
    | none => rfl
    | some t =>
      have hbuilt := h.tree_eq key t hkept
      simp [hbuild] at hbuilt
  simp [Evaluator.tree, hnone, h.archive_eq, hbuild]

theorem Serves.evaluate_of_error (h : e.Serves l) (hbuild : Tree.ofRuleset l key = .error missing)
    (evidence : EvidenceSource) :
    e.evaluate key evidence = (e, .ofResult (.error (.notLoaded missing))) := by
  simp [Evaluator.evaluate, h.tree_of_error hbuild]

end Failure

/-! ## What is answered

Two evaluators answer alike, whatever each of them keeps, if their archives agree on what the answer
may look up.
-/

section Alike

variable {l' : LoadedArchive} {key : VersionedId} (h : e.Serves l) (h' : e'.Serves l')
  (evidence : EvidenceSource)

include h h'

theorem Serves.evaluate_eq (agrees : l.AgreesFrom l' (key.withKind .ruleset)) :
    (e.evaluate key evidence).2 = (e'.evaluate key evidence).2 := by
  have hsame := Tree.ofRuleset_congr agrees
  cases hbuild : Tree.ofRuleset l key with
  | error missing =>
    rw [h.evaluate_of_error hbuild, h'.evaluate_of_error (hsame.symm.trans hbuild)]
  | ok t =>
    rw [(h.evaluate key evidence).2 t hbuild,
      (h'.evaluate key evidence).2 t (hsame.symm.trans hbuild)]

theorem Serves.evaluateTask_eq (agrees : l.AgreesFrom l' (key.withKind .task)) :
    (e.evaluateTask key evidence).2 = (e'.evaluateTask key evidence).2 := by
  have htask : l.task key = l'.task key := agrees.payload_eq
  unfold Evaluator.evaluateTask
  rw [h.archive_eq, h'.archive_eq, ← htask]
  cases hbody : l.task key with
  | error missing => rfl
  | ok task => simp only [h.evaluate_eq h' evidence (agrees.of_task hbody)]

theorem Serves.evaluateTasks_eq {keys : List VersionedId}
    (agrees : ∀ k ∈ keys, l.AgreesFrom l' (k.withKind .task)) :
    (e.evaluateTasks evidence keys).2 = (e'.evaluateTasks evidence keys).2 := by
  induction keys generalizing e e' with
  | nil => rfl
  | cons key keys ih =>
    rw [List.forall_mem_cons] at agrees
    have hfirst := h.evaluateTask_eq h' evidence agrees.1
    have hnext := h.evaluateTask key evidence
    have hnext' := h'.evaluateTask key evidence
    unfold Evaluator.evaluateTasks
    rcases htask : e.evaluateTask key evidence with ⟨next, asked, result⟩
    rcases htask' : e'.evaluateTask key evidence with ⟨next', asked', result'⟩
    rw [htask] at hfirst hnext
    rw [htask'] at hfirst hnext'
    cases hfirst
    cases result with
    | error err => rfl
    | ok outcome => simp only [ih hnext hnext' agrees.2]

theorem Serves.evaluateChallenge_eq (agrees : l.AgreesFrom l' (key.withKind .challenge)) :
    (e.evaluateChallenge key evidence).2 = (e'.evaluateChallenge key evidence).2 := by
  have hchallenge : l.challenge key = l'.challenge key := agrees.payload_eq
  unfold Evaluator.evaluateChallenge
  rw [h.archive_eq, h'.archive_eq, ← hchallenge]
  cases hbody : l.challenge key with
  | error missing => rfl
  | ok challenge => simp only [h.evaluateTasks_eq h' evidence (agrees.of_challenge hbody)]

omit evidence in
theorem Serves.ask_eq {q : Question} (agrees : l.AgreesFrom l' q.subject) :
    (e.ask q).2 = (e'.ask q).2 := by
  cases q with
  | tree key =>
    exact congrArg Answer.tree
      ((h.tree key).2.trans ((Tree.ofRuleset_congr agrees).trans (h'.tree key).2.symm))
  | ruleset key evidence => exact congrArg Answer.ruleset (h.evaluate_eq h' evidence agrees)
  | task key evidence => exact congrArg Answer.task (h.evaluateTask_eq h' evidence agrees)
  | challenge key evidence =>
    exact congrArg Answer.challenge (h.evaluateChallenge_eq h' evidence agrees)

end Alike

/-- An evaluator answers each of a sequence of questions as a new one does. -/
theorem Serves.askAll_eq (h : e.Serves l) (qs : List Question) :
    (e.askAll qs).2 = qs.map fun q => ((new l).ask q).2 := by
  induction qs generalizing e with
  | nil => rfl
  | cons q qs ih =>
    have hfirst := h.ask_eq (serves_new l) (.refl l q.subject)
    simp only [Evaluator.askAll, List.map_cons, hfirst, ih (h.ask q)]

/-- The trees that an evaluator keeps cannot be told from its answers. Whatever it is asked, it
answers as a new evaluator does and keeps only trees of its archive, and a ruleset whose tree cannot
be built leaves it as it was. -/
theorem answers_fresh (l : LoadedArchive) (qs : List Question) :
    ((new l).askAll qs).2 = qs.map (fun q => ((new l).ask q).2) ∧
    ((new l).askAll qs).1.Serves l ∧
    ∀ key missing, Tree.ofRuleset l key = .error missing →
      ((new l).askAll qs).1.tree key = (((new l).askAll qs).1, .error missing) ∧
      ∀ evidence, ((new l).askAll qs).1.evaluate key evidence =
        (((new l).askAll qs).1, .ofResult (.error (.notLoaded missing))) := by
  have hserves := (serves_new l).askAll qs
  refine ⟨(serves_new l).askAll_eq qs, hserves, ?_⟩
  intro key missing hbuild
  exact ⟨hserves.tree_of_error hbuild, hserves.evaluate_of_error hbuild⟩

/-- A challenge of two tasks. The ruleset of the second one refers to a rule that is not loaded. -/
def danglingRule : LoadedArchive :=
  let artifact (id : String) (payload : Payload) : Artifact := ⟨id, 1, ⟨"1.0", 5, ""⟩, [], payload⟩
  ⟨⟨"c1", 1, 5, "1.0"⟩, Registry.ofArtifacts [
    artifact "c1" (.challenge ⟨[⟨"t1", 1⟩, ⟨"t2", 1⟩]⟩),
    artifact "t1" (.task ⟨⟨"rs1", 1⟩, .boolean, [], ""⟩),
    artifact "t2" (.task ⟨⟨"rs2", 1⟩, .boolean, [], ""⟩),
    artifact "rs1" (.ruleset ⟨.ruleRef ⟨"r1", 1⟩⟩),
    artifact "rs2" (.ruleset ⟨.logical .or [.ruleRef ⟨"r1", 1⟩, .ruleRef ⟨"r9", 1⟩]⟩),
    artifact "r1" (.rule ⟨"age", ">=", .integer 18, "THRESHOLD"⟩)]⟩

/-- The challenge leaves the tree of the first ruleset behind and none of the second one, which
fails again when it is asked for. -/
theorem answers_fresh_danglingRule :
    let noEvidence : EvidenceSource := fun _ => none
    let evidence : EvidenceSource := fun field => if field = "age" then some (.integer 20) else none
    let qs : List Question := [.challenge ⟨"c1", 1⟩ evidence, .ruleset ⟨"rs1", 1⟩ noEvidence,
      .task ⟨"t1", 1⟩ evidence]
    let e := ((new danglingRule).askAll qs).1
    Tree.ofRuleset danglingRule ⟨"rs2", 1⟩ = .error ⟨⟨.rule, "r9", 1⟩⟩ ∧
      e.tree ⟨"rs2", 1⟩ = (e, .error ⟨⟨.rule, "r9", 1⟩⟩) ∧ e.trees.keys = [⟨"rs1", 1⟩] ∧
      ((new danglingRule).askAll qs).2 = qs.map fun q => ((new danglingRule).ask q).2 := by
  intro noEvidence evidence qs e
  have hbuild : Tree.ofRuleset danglingRule ⟨"rs2", 1⟩ = .error ⟨⟨.rule, "r9", 1⟩⟩ := rfl
  obtain ⟨hanswers, -, hfails⟩ := answers_fresh danglingRule qs
  exact ⟨hbuild, (hfails _ _ hbuild).1, by decide +kernel, hanswers⟩

end Evaluator
end Verdict
