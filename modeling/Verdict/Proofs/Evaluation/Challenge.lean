import Verdict.Proofs.Evaluation.Questions

/-!
# Outcomes of challenges

A challenge is the list of its tasks, and its outcome is the list of theirs. Unlike the operands of
a node, a task that is not passed does not keep the later ones from being evaluated, and a task that
lacks evidence is not taken for one that is not passed: it ends the challenge.
-/

namespace Verdict

open Results

/-! ## What comes of a task -/

/-- The action is one for a task that was passed or not. -/
def Action.FiresOn (passed : Bool) (a : Action) : Prop :=
  a.on = .always ∨ a.on = .success ∧ passed = true ∨ a.on = .failure ∧ passed = false

instance (passed : Bool) : DecidablePred (Action.FiresOn passed) :=
  fun _ => inferInstanceAs (Decidable (_ ∨ _))

theorem Action.firesOn_iff {passed : Bool} {a : Action} :
    a.FiresOn passed ↔ a.on.fires passed = true := by
  unfold FiresOn
  cases a.on <;> cases passed <;> decide

namespace LoadedArchive

variable {l : LoadedArchive} {evidence : EvidenceSource} {key : VersionedId}

/-- The outcome that a loaded task comes to on evidence. -/
inductive Reports (l : LoadedArchive) (evidence : EvidenceSource) (key : VersionedId) :
    TaskOutcome → Prop
  | decided {task : Task} {t : Tree} {passed : Bool} : l.task key = .ok task →
      Tree.ofRuleset l task.ruleset = .ok t → (t.evaluate evidence).result = .ok passed →
      Reports l evidence key
        ⟨key, passed, (task.actions.filter (Action.FiresOn passed)).map Action.emit⟩

/-- The error that a task comes to on evidence: the task is not loaded, the tree of its ruleset
cannot be built, or the tree fails. -/
inductive Fails (l : LoadedArchive) (evidence : EvidenceSource) (key : VersionedId) :
    EvaluationError → Prop
  | absent {missing : NotLoaded} : l.task key = .error missing →
      Fails l evidence key (.notLoaded missing)
  | unbuilt {task : Task} {missing : NotLoaded} : l.task key = .ok task →
      Tree.ofRuleset l task.ruleset = .error missing → Fails l evidence key (.notLoaded missing)
  | undecided {task : Task} {t : Tree} {err : EvaluationError} : l.task key = .ok task →
      Tree.ofRuleset l task.ruleset = .ok t → (t.evaluate evidence).result = .error err →
      Fails l evidence key err

theorem reports_iff_of_tree {task : Task} {t : Tree} (htask : l.task key = .ok task)
    (hbuild : Tree.ofRuleset l task.ruleset = .ok t) {o : TaskOutcome} :
    l.Reports evidence key o ↔ ∃ passed, (t.evaluate evidence).result = .ok passed ∧
      ⟨key, passed, task.emitted passed⟩ = o := by
  have hemitted (passed : Bool) :
      (task.actions.filter (Action.FiresOn passed)).map Action.emit = task.emitted passed := by
    rw [Task.emitted]
    congr 1
    exact List.filter_congr fun a _ => by rw [Bool.eq_iff_iff, decide_eq_true_iff, a.firesOn_iff]
  constructor
  · rintro ⟨htask', hbuild', hpassed⟩
    obtain rfl := Except.ok.inj (htask.symm.trans htask')
    obtain rfl := Except.ok.inj (hbuild.symm.trans hbuild')
    exact ⟨_, hpassed, by rw [hemitted]⟩
  · rintro ⟨passed, hpassed, rfl⟩
    rw [← hemitted]
    exact .decided htask hbuild hpassed

end LoadedArchive

/-! ## What an evaluator answers -/

namespace Evaluator

variable {l : LoadedArchive} {e : Evaluator} {key : VersionedId}

theorem Serves.evaluateTask_of_tree (h : e.Serves l) (evidence : EvidenceSource) {task : Task}
    {t : Tree} (htask : l.task key = .ok task) (hbuild : Tree.ofRuleset l task.ruleset = .ok t) :
    (e.evaluateTask key evidence).2.result =
      (t.evaluate evidence).result.map fun passed => ⟨key, passed, task.emitted passed⟩ := by
  simp only [Evaluator.evaluateTask, h.archive_eq, htask,
    (h.evaluate task.ruleset evidence).2 t hbuild, Inquiry.map]

theorem Serves.evaluateTask_of_error (h : e.Serves l) (evidence : EvidenceSource)
    {missing : NotLoaded} (hmissing : l.task key = .error missing ∨
      ∃ task, l.task key = .ok task ∧ Tree.ofRuleset l task.ruleset = .error missing) :
    (e.evaluateTask key evidence).2.result = .error (.notLoaded missing) := by
  rcases hmissing with htask | ⟨task, htask, hbuild⟩
  · simp only [Evaluator.evaluateTask, h.archive_eq, htask, Inquiry.ofResult]
  · simp only [Evaluator.evaluateTask, h.archive_eq, htask, h.evaluate_of_error hbuild,
      Inquiry.map, Inquiry.ofResult, Except.map]

theorem Serves.evaluateTask_eq_ok_iff (h : e.Serves l) (evidence : EvidenceSource)
    {o : TaskOutcome} :
    (e.evaluateTask key evidence).2.result = .ok o ↔ l.Reports evidence key o := by
  cases htask : l.task key with
  | error missing =>
    rw [h.evaluateTask_of_error evidence (.inl htask)]
    constructor
    · nofun
    · rintro ⟨htask', -, -⟩
      cases htask.symm.trans htask'
  | ok task =>
    cases hbuild : Tree.ofRuleset l task.ruleset with
    | error missing =>
      rw [h.evaluateTask_of_error evidence (.inr ⟨task, htask, hbuild⟩)]
      constructor
      · nofun
      · rintro ⟨htask', hbuild', -⟩
        obtain rfl := Except.ok.inj (htask.symm.trans htask')
        cases hbuild.symm.trans hbuild'
    | ok t =>
      rw [h.evaluateTask_of_tree evidence htask hbuild, map_eq_ok_iff,
        LoadedArchive.reports_iff_of_tree htask hbuild]

theorem Serves.evaluateTask_eq_error_iff (h : e.Serves l) (evidence : EvidenceSource)
    {err : EvaluationError} :
    (e.evaluateTask key evidence).2.result = .error err ↔ l.Fails evidence key err := by
  constructor
  · intro herr
    cases htask : l.task key with
    | error missing =>
      rw [h.evaluateTask_of_error evidence (.inl htask)] at herr
      cases herr
      exact .absent htask
    | ok task =>
      cases hbuild : Tree.ofRuleset l task.ruleset with
      | error missing =>
        rw [h.evaluateTask_of_error evidence (.inr ⟨task, htask, hbuild⟩)] at herr
        cases herr
        exact .unbuilt htask hbuild
      | ok t =>
        rw [h.evaluateTask_of_tree evidence htask hbuild, map_eq_error_iff] at herr
        exact .undecided htask hbuild herr
  · rintro (htask | ⟨htask, hbuild⟩ | ⟨htask, hbuild, herr⟩)
    · exact h.evaluateTask_of_error evidence (.inl htask)
    · exact h.evaluateTask_of_error evidence (.inr ⟨_, htask, hbuild⟩)
    · rw [h.evaluateTask_of_tree evidence htask hbuild, map_eq_error_iff]
      exact herr

/-- Tasks in order are evaluated each as by a new evaluator. -/
theorem Serves.evaluateTasks_eq_mapM (h : e.Serves l) (evidence : EvidenceSource)
    (keys : List VersionedId) : (e.evaluateTasks evidence keys).2.result =
      keys.mapM fun k => ((new l).evaluateTask k evidence).2.result := by
  induction keys generalizing e with
  | nil => rfl
  | cons key keys ih =>
    have hfirst := h.evaluateTask_eq (serves_new l) evidence (.refl l (key.withKind .task))
    have hnext := h.evaluateTask key evidence
    rw [List.mapM_cons, ← hfirst]
    unfold Evaluator.evaluateTasks
    rcases htask : e.evaluateTask key evidence with ⟨next, asked, result⟩
    rw [htask] at hnext
    cases result with
    | error err => rfl
    | ok outcome =>
      rw [ok_bind, ← ih hnext]
      rfl

theorem Serves.evaluateTasks_eq_ok_iff (h : e.Serves l) (evidence : EvidenceSource)
    {keys : List VersionedId} {outcomes : List TaskOutcome} :
    (e.evaluateTasks evidence keys).2.result = .ok outcomes ↔
      List.Forall₂ (l.Reports evidence) keys outcomes := by
  simp only [h.evaluateTasks_eq_mapM, mapM_eq_ok_iff, (serves_new l).evaluateTask_eq_ok_iff]

theorem Serves.evaluateTasks_eq_error_iff (h : e.Serves l) (evidence : EvidenceSource)
    {keys : List VersionedId} {err : EvaluationError} :
    (e.evaluateTasks evidence keys).2.result = .error err ↔
      ∃ before t behind, keys = before ++ t :: behind ∧
        (∀ s ∈ before, ∃ o, l.Reports evidence s o) ∧ l.Fails evidence t err := by
  simp only [h.evaluateTasks_eq_mapM, mapM_eq_error_iff, (serves_new l).evaluateTask_eq_ok_iff,
    (serves_new l).evaluateTask_eq_error_iff]

section Challenge

variable (h : e.Serves l) (evidence : EvidenceSource) {c : Challenge} (hc : l.challenge key = .ok c)

include h hc

theorem Serves.evaluateChallenge_result : (e.evaluateChallenge key evidence).2.result =
    (e.evaluateTasks evidence c.tasks).2.result.map fun tasks => ⟨key, tasks⟩ := by
  simp only [Evaluator.evaluateChallenge, h.archive_eq, hc, Inquiry.map]

theorem Serves.evaluateChallenge_eq_ok_iff {outcome : ChallengeOutcome} :
    (e.evaluateChallenge key evidence).2.result = .ok outcome ↔
      outcome.challenge = key ∧ List.Forall₂ (l.Reports evidence) c.tasks outcome.tasks := by
  simp only [h.evaluateChallenge_result evidence hc, map_eq_ok_iff, h.evaluateTasks_eq_ok_iff]
  constructor
  · rintro ⟨tasks, htasks, rfl⟩
    exact ⟨rfl, htasks⟩
  · rintro ⟨rfl, htasks⟩
    exact ⟨outcome.tasks, htasks, rfl⟩

theorem Serves.evaluateChallenge_eq_error_iff {err : EvaluationError} :
    (e.evaluateChallenge key evidence).2.result = .error err ↔
      ∃ before t behind, c.tasks = before ++ t :: behind ∧
        (∀ s ∈ before, ∃ o, l.Reports evidence s o) ∧ l.Fails evidence t err := by
  rw [h.evaluateChallenge_result evidence hc, map_eq_error_iff, h.evaluateTasks_eq_error_iff]

theorem Serves.exists_evaluateChallenge_iff :
    (∃ outcome, (e.evaluateChallenge key evidence).2.result = .ok outcome) ↔
      ∀ t ∈ c.tasks, ∃ o, l.Reports evidence t o := by
  simp only [h.evaluateChallenge_eq_ok_iff evidence hc]
  rw [← exists_forall₂_iff]
  constructor
  · rintro ⟨outcome, -, htasks⟩
    exact ⟨outcome.tasks, htasks⟩
  · rintro ⟨tasks, htasks⟩
    exact ⟨⟨key, tasks⟩, rfl, htasks⟩

theorem Serves.exists_evaluateChallenge_error_iff :
    (∃ err, (e.evaluateChallenge key evidence).2.result = .error err) ↔
      ∃ t ∈ c.tasks, ∃ err, l.Fails evidence t err := by
  constructor
  · rintro ⟨err, herr⟩
    obtain ⟨before, t, behind, hsplit, -, hfails⟩ :=
      (h.evaluateChallenge_eq_error_iff evidence hc).mp herr
    exact ⟨t, hsplit ▸ List.mem_append_right before List.mem_cons_self, err, hfails⟩
  · rintro ⟨t, ht, err, hfails⟩
    cases hresult : (e.evaluateChallenge key evidence).2.result with
    | error err => exact ⟨err, rfl⟩
    | ok outcome =>
      obtain ⟨o, ho⟩ := (h.exists_evaluateChallenge_iff evidence hc).mp ⟨outcome, hresult⟩ t ht
      rw [← h.evaluateTask_eq_ok_iff] at ho
      rw [← h.evaluateTask_eq_error_iff, ho] at hfails
      cases hfails

theorem Serves.passed_iff {outcome : ChallengeOutcome}
    (hresult : (e.evaluateChallenge key evidence).2.result = .ok outcome) :
    outcome.passed = true ↔ ∀ t ∈ c.tasks, ∃ o, l.Reports evidence t o ∧ o.passed = true := by
  have houtcome := (h.evaluateChallenge_eq_ok_iff evidence hc).mp hresult
  rw [ChallengeOutcome.passed, List.all_eq_true, ← exists_forall₂_iff]
  simp only [forall₂_and_right]
  constructor
  · intro hpassed
    exact ⟨outcome.tasks, houtcome.2, hpassed⟩
  · rintro ⟨tasks, htasks, hpassed⟩
    have hsame : (e.evaluateChallenge key evidence).2.result = .ok ⟨key, tasks⟩ :=
      (h.evaluateChallenge_eq_ok_iff evidence hc).mpr ⟨rfl, htasks⟩
    obtain rfl := Except.ok.inj (hresult.symm.trans hsame)
    exact hpassed

end Challenge

/-- A challenge is evaluated if all of its tasks are, and its outcome has theirs in the order
listed. If some fail, it fails as the first of them. -/
theorem evaluateChallenge_exact (asked : e.Asked l) (evidence : EvidenceSource) {c : Challenge}
    (hc : l.challenge key = .ok c) :
    let result := (e.evaluateChallenge key evidence).2.result
    (∀ t, (∀ o, (e.evaluateTask t evidence).2.result = .ok o ↔ l.Reports evidence t o) ∧
      ∀ err, (e.evaluateTask t evidence).2.result = .error err ↔ l.Fails evidence t err) ∧
    ((∃ outcome, result = .ok outcome) ↔ ∀ t ∈ c.tasks, ∃ o, l.Reports evidence t o) ∧
    (∀ outcome, result = .ok outcome ↔
      outcome.challenge = key ∧ List.Forall₂ (l.Reports evidence) c.tasks outcome.tasks) ∧
    (∀ outcome, result = .ok outcome → (outcome.passed = true ↔
      ∀ t ∈ c.tasks, ∃ o, l.Reports evidence t o ∧ o.passed = true)) ∧
    ((∃ err, result = .error err) ↔ ∃ t ∈ c.tasks, ∃ err, l.Fails evidence t err) ∧
    ∀ err, result = .error err ↔ ∃ before t behind, c.tasks = before ++ t :: behind ∧
      (∀ s ∈ before, ∃ o, l.Reports evidence s o) ∧ l.Fails evidence t err := by
  have h := asked.serves
  refine ⟨fun t => ⟨fun o => ?_, fun err => ?_⟩, ?_, fun outcome => ?_, fun outcome hresult => ?_,
    ?_, fun err => ?_⟩
  · exact h.evaluateTask_eq_ok_iff evidence
  · exact h.evaluateTask_eq_error_iff evidence
  · exact h.exists_evaluateChallenge_iff evidence hc
  · exact h.evaluateChallenge_eq_ok_iff evidence hc
  · exact h.passed_iff evidence hc hresult
  · exact h.exists_evaluateChallenge_error_iff evidence hc
  · exact h.evaluateChallenge_eq_error_iff evidence hc

/-- A check of age and consent. One challenge lists the check of age twice, around one that asks for
consent; the other one goes on, after the age, to a bare rule and to a task that is not loaded. -/
def twoChallenges : LoadedArchive :=
  let artifact (id : String) (payload : Payload) : Artifact := ⟨id, 1, ⟨"1.0", 5, ""⟩, [], payload⟩
  let signals : List Action :=
    [⟨.failure, "blocked"⟩, ⟨.always, "checked"⟩, ⟨.success, "cleared"⟩]
  ⟨⟨"c1", 1, 5, "1.0"⟩, Registry.ofArtifacts [
    artifact "c1" (.challenge ⟨[⟨"age", 1⟩, ⟨"consent", 1⟩, ⟨"age", 1⟩]⟩),
    artifact "c2" (.challenge ⟨[⟨"age", 1⟩, ⟨"bare", 1⟩, ⟨"lost", 1⟩]⟩),
    artifact "age" (.task ⟨⟨"ages", 1⟩, .boolean, signals, ""⟩),
    artifact "consent" (.task ⟨⟨"consents", 1⟩, .boolean, signals, ""⟩),
    artifact "bare" (.task ⟨⟨"bares", 1⟩, .boolean, signals, ""⟩),
    artifact "ages" (.ruleset ⟨.ruleRef ⟨"adult", 1⟩⟩),
    artifact "consents" (.ruleset ⟨.logical .or [.ruleRef ⟨"given", 1⟩, .ruleRef ⟨"adult", 1⟩]⟩),
    artifact "bares" (.ruleset ⟨.ruleRef ⟨"given", 1⟩⟩),
    artifact "adult" (.rule ⟨"age", ">=", .integer 18, "THRESHOLD"⟩),
    artifact "given" (.rule ⟨"consent", "==", .boolean true, "EQUALITY"⟩)]⟩

/-- A child without consent fails every task of the first challenge and none of them ends it. The
second challenge ends for want of consent, after a task that was not passed and before one that is
not loaded. -/
theorem evaluateChallenge_exact_twoChallenges :
    let evidence : EvidenceSource := fun field => if field = "age" then some (.integer 9) else none
    let e := ((new twoChallenges).evaluateChallenge ⟨"c1", 1⟩ evidence).1
    let refused (task : String) : TaskOutcome := ⟨⟨task, 1⟩, false, ["blocked", "checked"]⟩
    let outcome : ChallengeOutcome :=
      ⟨⟨"c1", 1⟩, [refused "age", refused "consent", refused "age"]⟩
    ((e.evaluateChallenge ⟨"c1", 1⟩ evidence).2.result = .ok outcome ∧
      List.Forall₂ (twoChallenges.Reports evidence) [⟨"age", 1⟩, ⟨"consent", 1⟩, ⟨"age", 1⟩]
        outcome.tasks) ∧
    (e.evaluateChallenge ⟨"c2", 1⟩ evidence).2.result = .error (.missingEvidence "consent") := by
  intro evidence e refused outcome
  have asked : e.Asked twoChallenges := .evaluateChallenge _ _ .new
  have hfirst : twoChallenges.challenge ⟨"c1", 1⟩ =
      .ok ⟨[⟨"age", 1⟩, ⟨"consent", 1⟩, ⟨"age", 1⟩]⟩ := rfl
  have hsecond : twoChallenges.challenge ⟨"c2", 1⟩ =
      .ok ⟨[⟨"age", 1⟩, ⟨"bare", 1⟩, ⟨"lost", 1⟩]⟩ := rfl
  obtain ⟨-, -, houtcome, -⟩ := evaluateChallenge_exact asked evidence hfirst
  obtain ⟨htasks, -, -, -, -, herror⟩ := evaluateChallenge_exact asked evidence hsecond
  have hresult : (e.evaluateChallenge ⟨"c1", 1⟩ evidence).2.result = .ok outcome := by
    decide +kernel
  refine ⟨⟨hresult, ((houtcome outcome).mp hresult).2⟩, (herror _).mpr ?_⟩
  refine ⟨[⟨"age", 1⟩], ⟨"bare", 1⟩, [⟨"lost", 1⟩], rfl, ?_, ?_⟩
  · have hrefused : (e.evaluateTask ⟨"age", 1⟩ evidence).2.result = .ok (refused "age") := by
      decide +kernel
    exact List.forall_mem_singleton.mpr ⟨refused "age", ((htasks _).1 _).mp hrefused⟩
  · exact .undecided rfl rfl rfl

end Evaluator
end Verdict
