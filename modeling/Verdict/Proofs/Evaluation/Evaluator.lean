import Verdict.Evaluation.Evaluator
import Verdict.Proofs.Archive.Loaded

/-!
# Evaluations of sound archives

An evaluator of a sound archive finds every task, ruleset and rule of a challenge, whatever it was
asked before. What is left to fail is a rule that the evidence does not suit.
-/

namespace Verdict

open Results

/-! ## Trees of rulesets -/

namespace Tree

variable {l : LoadedArchive}

mutual
/-- A tree is built if the rules at the leaves are there. -/
theorem exists_ofExpression : ∀ {e : Expression}, (∀ k ∈ e.leaves, ∃ r, l.rule k = .ok r) →
    ∃ t, ofExpression l e = .ok t
  | .ruleRef k, h => by
    obtain ⟨r, hr⟩ := h k (by simp [Expression.leaves])
    exact ⟨.rule k r, by rw [ofExpression, hr]⟩
  | .logical operator es, h => by
    obtain ⟨ts, hts⟩ : ∃ ts, ofExpressions l es = .ok ts := exists_ofExpressions h
    exact ⟨.logical operator ts, by rw [ofExpression, hts]⟩

theorem exists_ofExpressions : ∀ {es : List Expression},
    (∀ k ∈ Expression.leavesOfAll es, ∃ r, l.rule k = .ok r) → ∃ ts, ofExpressions l es = .ok ts
  | [], _ => ⟨[], rfl⟩
  | e :: es, h => by
    rw [Expression.leavesOfAll] at h
    obtain ⟨t, ht⟩ := exists_ofExpression fun k hk => h k (List.mem_append_left _ hk)
    obtain ⟨ts, hts⟩ := exists_ofExpressions fun k hk => h k (List.mem_append_right _ hk)
    exact ⟨t :: ts, by rw [ofExpressions, ht, hts]⟩
end

mutual
/-- The leaves of a tree are the rules that its expression refers to. -/
theorem rule_of_mem_leaves : ∀ {e : Expression} {t : Tree}, ofExpression l e = .ok t →
    ∀ r ∈ t.leaves, ∃ k ∈ e.leaves, l.rule k = .ok r
  | .ruleRef k, t, h, r, hr => by
    rw [ofExpression] at h
    split at h
    case h_1 body hbody =>
      cases h
      rw [leaves, List.mem_singleton] at hr
      exact ⟨k, by simp [Expression.leaves], hr ▸ hbody⟩
    case h_2 => cases h
  | .logical _ es, t, h, r, hr => by
    rw [ofExpression] at h
    split at h
    case h_1 ts hts =>
      cases h
      exact rule_of_mem_leavesOfAll hts r hr
    case h_2 => cases h

theorem rule_of_mem_leavesOfAll : ∀ {es : List Expression} {ts : List Tree},
    ofExpressions l es = .ok ts →
    ∀ r ∈ leavesOfAll ts, ∃ k ∈ Expression.leavesOfAll es, l.rule k = .ok r
  | [], ts, h, r, hr => by
    cases h
    cases hr
  | e :: es, ts, h, r, hr => by
    rw [ofExpressions] at h
    split at h
    · cases h
    case h_2 t ht =>
      split at h
      · cases h
      case h_2 ts' hts =>
        cases h
        rw [leavesOfAll, List.mem_append] at hr
        rw [Expression.leavesOfAll]
        rcases hr with hr | hr
        · obtain ⟨k, hk, hrule⟩ := rule_of_mem_leaves ht r hr
          exact ⟨k, List.mem_append_left _ hk, hrule⟩
        · obtain ⟨k, hk, hrule⟩ := rule_of_mem_leavesOfAll hts r hr
          exact ⟨k, List.mem_append_right _ hk, hrule⟩
end

/-- A tree that is a bare rule comes from a reference to the rule. -/
theorem eq_ruleRef_of_ofExpression {e : Expression} {key : VersionedId} {body : Rule}
    (h : ofExpression l e = .ok (.rule key body)) : e = .ruleRef key ∧ l.rule key = .ok body := by
  cases e with
  | ruleRef k =>
    rw [ofExpression] at h
    split at h
    case h_1 body' hbody =>
      cases h
      exact ⟨rfl, hbody⟩
    case h_2 => cases h
  | logical operator es =>
    rw [ofExpression] at h
    split at h <;> cases h

end Tree

/-! ## How a challenge fails -/

/-- The errors that a challenge of an archive may end with on some evidence: a bare rule misses its
field, or a rule asks for an ordering of something that is no number. -/
inductive Challenge.FailsOn (l : LoadedArchive) (evidence : EvidenceSource) (c : Challenge) :
    EvaluationError → Prop
  | missing {t key : VersionedId} {task : Task} {rule : Rule} : t ∈ c.tasks → l.task t = .ok task →
      l.ruleset task.ruleset = .ok ⟨.ruleRef key⟩ → l.rule key = .ok rule →
      evidence rule.input = none → FailsOn l evidence c (.missingEvidence rule.input)
  | unordered {t key : VersionedId} {task : Task} {ruleset : Ruleset} {rule : Rule}
      {actual : Scalar} : t ∈ c.tasks → l.task t = .ok task →
      l.ruleset task.ruleset = .ok ruleset → key ∈ ruleset.root.leaves → l.rule key = .ok rule →
      rule.Unordered evidence actual → FailsOn l evidence c (.evidenceNotNumeric rule.input actual)

namespace LoadedArchive.Sound

variable {l : LoadedArchive} (h : l.Sound) {evidence : EvidenceSource} {err : EvaluationError}

include h

theorem exists_tree {key : VersionedId} {ruleset : Ruleset} (hset : l.ruleset key = .ok ruleset) :
    ∃ t, Tree.ofExpression l ruleset.root = .ok t ∧ Tree.ofRuleset l key = .ok t := by
  obtain ⟨t, ht⟩ := Tree.exists_ofExpression (h.rule_of_ruleset hset)
  refine ⟨t, ht, ?_⟩
  rw [Tree.ofRuleset, hset]
  exact ht

/-- An error of a task's tree is one that its challenge may end with. -/
theorem failsOn_of_tree {c : Challenge} {t : VersionedId} {task : Task} {ruleset : Ruleset}
    {tree : Tree} (ht : t ∈ c.tasks) (htask : l.task t = .ok task)
    (hset : l.ruleset task.ruleset = .ok ruleset)
    (htree : Tree.ofExpression l ruleset.root = .ok tree)
    (herr : (tree.evaluate evidence).result = .error err) : c.FailsOn l evidence err := by
  obtain ⟨rule, hleaf, hfail⟩ := Tree.exists_leaf_of_error herr
  obtain ⟨key, hkey, hrule⟩ := Tree.rule_of_mem_leaves htree rule hleaf
  rcases (h.rule_comparable hrule).cases_of_error hfail with ⟨rfl, hev⟩ | ⟨actual, rfl, hactual⟩
  · obtain ⟨key', body, rfl⟩ := Tree.eq_rule_of_missing herr
    rw [Tree.leaves, List.mem_singleton] at hleaf
    subst hleaf
    obtain ⟨hroot, hrule'⟩ := Tree.eq_ruleRef_of_ofExpression htree
    obtain ⟨root⟩ := ruleset
    dsimp only at hroot
    subst hroot
    exact .missing ht htask hset hrule' hev
  · exact .unordered ht htask hset hkey hrule hactual

end LoadedArchive.Sound

/-! ## Evaluators -/

namespace Evaluator

variable {l : LoadedArchive} {e : Evaluator}

/-- The evaluators of an archive: a new one, and what is left after a question. -/
inductive Asked (l : LoadedArchive) : Evaluator → Prop
  | new : Asked l (new l)
  | tree {e : Evaluator} (key : VersionedId) : Asked l e → Asked l (e.tree key).1
  | evaluate {e : Evaluator} (key : VersionedId) (evidence : EvidenceSource) :
      Asked l e → Asked l (e.evaluate key evidence).1
  | evaluateTask {e : Evaluator} (key : VersionedId) (evidence : EvidenceSource) :
      Asked l e → Asked l (e.evaluateTask key evidence).1
  | evaluateChallenge {e : Evaluator} (key : VersionedId) (evidence : EvidenceSource) :
      Asked l e → Asked l (e.evaluateChallenge key evidence).1

/-- The evaluator works on the archive, and the trees it keeps are those of the archive. -/
structure Serves (l : LoadedArchive) (e : Evaluator) : Prop where
  archive_eq : e.archive = l
  tree_eq : ∀ key t, e.trees.find? key = some t → Tree.ofRuleset l key = .ok t

theorem serves_new (l : LoadedArchive) : (new l).Serves l where
  archive_eq := rfl
  tree_eq := by simp [new]

theorem Serves.tree (h : e.Serves l) (key : VersionedId) :
    (e.tree key).1.Serves l ∧ (e.tree key).2 = Tree.ofRuleset l key := by
  unfold Evaluator.tree
  split
  case h_1 t ht => exact ⟨h, (h.tree_eq key t ht).symm⟩
  case h_2 =>
    rw [h.archive_eq]
    split
    case h_1 t ht =>
      refine ⟨⟨rfl, fun k s hs => ?_⟩, ht.symm⟩
      rw [Table.find?_insert] at hs
      split_ifs at hs with hk
      · cases hs
        exact hk ▸ ht
      · exact h.tree_eq k s hs
    case h_2 missing hmissing => exact ⟨h, hmissing.symm⟩

theorem Serves.evaluate (h : e.Serves l) (key : VersionedId) (evidence : EvidenceSource) :
    (e.evaluate key evidence).1.Serves l ∧ ∀ t, Tree.ofRuleset l key = .ok t →
      (e.evaluate key evidence).2 = t.evaluate evidence := by
  obtain ⟨hserves, htree⟩ := h.tree key
  unfold Evaluator.evaluate
  split
  case h_1 e' t heq =>
    rw [heq] at hserves htree
    refine ⟨hserves, fun t' ht' => ?_⟩
    rw [Except.ok.inj (htree.trans ht')]
  case h_2 e' missing heq =>
    rw [heq] at hserves htree
    refine ⟨hserves, fun t' ht' => ?_⟩
    cases htree.trans ht'

theorem Serves.evaluateTask (h : e.Serves l) (key : VersionedId) (evidence : EvidenceSource) :
    (e.evaluateTask key evidence).1.Serves l := by
  unfold Evaluator.evaluateTask
  split
  · exact h
  · exact (h.evaluate _ evidence).1

theorem Serves.evaluateTasks {evidence : EvidenceSource} {keys : List VersionedId}
    (h : e.Serves l) : (e.evaluateTasks evidence keys).1.Serves l := by
  induction keys generalizing e with
  | nil => exact h
  | cons key keys ih =>
    have htask := h.evaluateTask key evidence
    unfold Evaluator.evaluateTasks
    split
    case h_1 e' asked err heq =>
      rw [heq] at htask
      exact htask
    case h_2 e' asked outcome heq =>
      rw [heq] at htask
      exact ih htask

theorem Serves.evaluateChallenge (h : e.Serves l) (key : VersionedId) (evidence : EvidenceSource) :
    (e.evaluateChallenge key evidence).1.Serves l := by
  unfold Evaluator.evaluateChallenge
  split
  · exact h
  · exact h.evaluateTasks

/-- Whatever an evaluator was asked, it works on its archive. -/
theorem Asked.serves (h : e.Asked l) : e.Serves l := by
  induction h with
  | new => exact serves_new l
  | tree key _ ih => exact (ih.tree key).1
  | evaluate key evidence _ ih => exact (ih.evaluate key evidence).1
  | evaluateTask key evidence _ ih => exact ih.evaluateTask key evidence
  | evaluateChallenge key evidence _ ih => exact ih.evaluateChallenge key evidence

/-! ## Results -/

section Sound

variable (hserves : e.Serves l) (h : l.Sound) {evidence : EvidenceSource} {c : Challenge}
  {err : EvaluationError}

include hserves h

/-- A task of a challenge fails only in a way that the challenge may. -/
theorem failsOn_of_evaluateTask {key : VersionedId} (hkey : key ∈ c.tasks) {task : Task}
    (htask : l.task key = .ok task)
    (herr : (e.evaluateTask key evidence).2.result = .error err) : c.FailsOn l evidence err := by
  obtain ⟨ruleset, hset⟩ := h.ruleset_of_task htask
  obtain ⟨tree, htree, hofRuleset⟩ := h.exists_tree hset
  have hresult := (hserves.evaluate task.ruleset evidence).2 tree hofRuleset
  rw [Evaluator.evaluateTask, hserves.archive_eq, htask] at herr
  dsimp only at herr
  rw [hresult, Inquiry.map] at herr
  apply h.failsOn_of_tree hkey htask hset htree
  cases hr : (tree.evaluate evidence).result with
  | ok b =>
    rw [hr] at herr
    cases herr
  | error err' =>
    rw [hr] at herr
    cases herr
    rfl

theorem failsOn_of_evaluateTasks {keys : List VersionedId} (hkeys : ∀ k ∈ keys, k ∈ c.tasks)
    (htasks : ∀ k ∈ keys, ∃ task, l.task k = .ok task)
    (herr : (e.evaluateTasks evidence keys).2.result = .error err) : c.FailsOn l evidence err := by
  induction keys generalizing e with
  | nil => cases herr
  | cons key keys ih =>
    rw [List.forall_mem_cons] at hkeys htasks
    obtain ⟨task, htask⟩ := htasks.1
    have hnext := hserves.evaluateTask key evidence
    unfold Evaluator.evaluateTasks at herr
    split at herr
    case h_1 e' asked err' heq =>
      cases herr
      exact failsOn_of_evaluateTask hserves h hkeys.1 htask (by rw [heq])
    case h_2 e' asked outcome heq =>
      rw [heq] at hnext
      apply ih hnext hkeys.2 htasks.2
      dsimp only [Inquiry.after, Inquiry.map] at herr
      cases hr : (e'.evaluateTasks evidence keys).2.result with
      | ok outcomes =>
        rw [hr] at herr
        cases herr
      | error err' =>
        rw [hr] at herr
        cases herr
        rfl

/-- A challenge of a sound archive is evaluated, or fails because of the evidence. -/
theorem evaluateChallenge_cases {key : VersionedId} (hc : l.challenge key = .ok c) :
    (∃ outcome, (e.evaluateChallenge key evidence).2.result = .ok outcome) ∨
      ∃ err, (e.evaluateChallenge key evidence).2.result = .error err ∧ c.FailsOn l evidence err := by
  have hresult : (e.evaluateChallenge key evidence).2 =
      (e.evaluateTasks evidence c.tasks).2.map fun tasks => ⟨key, tasks⟩ := by
    rw [Evaluator.evaluateChallenge, hserves.archive_eq, hc]
  rw [hresult, Inquiry.map]
  cases hr : (e.evaluateTasks evidence c.tasks).2.result with
  | ok outcomes => exact .inl ⟨_, rfl⟩
  | error err =>
    right
    refine ⟨err, rfl, ?_⟩
    exact failsOn_of_evaluateTasks hserves h (fun k hk => hk) (h.task_of_challenge hc) hr

end Sound

end Evaluator
end Verdict
