import Mathlib
import Verdict.Evaluation.Tree
import Verdict.Proofs.Results

/-!
# Errors of trees

A rule whose operator can compare its literal fails only because of the evidence. The errors of a
tree are errors of its leaves, and a missing field is reported only by a tree that is a bare rule.
-/

namespace Verdict

open Results

/-! ## Rules -/

theorem Scalar.toBinary64?_eq_none_iff {s : Scalar} :
    s.toBinary64? = none ↔ (∃ b, s = .boolean b) ∨ ∃ t, s = .text t := by
  cases s <;> simp [toBinary64?]

namespace Operator

/-- The operators that need numbers. -/
def IsOrdering (o : Operator) : Prop := o ≠ equal ∧ o ≠ notEqual

instance (o : Operator) : Decidable o.IsOrdering := inferInstanceAs (Decidable (_ ∧ _))

theorem numbers_eq_ok (field : String) (actual : Scalar) {literal : Scalar}
    (hliteral : literal.toBinary64?.isSome = true) :
    (∃ ab, numbers field actual literal = .ok ab) ∨
      actual.toBinary64? = none ∧ numbers field actual literal = .error (.evidenceNotNumeric field actual) := by
  unfold numbers
  cases hactual : actual.toBinary64? with
  | none => exact .inr ⟨rfl, rfl⟩
  | some a =>
    cases hl : literal.toBinary64? with
    | none =>
      rw [hl] at hliteral
      cases hliteral
    | some b => exact .inl ⟨(a, b), rfl⟩

/-- A comparison with a suitable literal fails only for an ordering, and because of the evidence. -/
theorem apply_cases (o : Operator) (field : String) (actual : Scalar) {literal : Scalar}
    (h : o.IsOrdering → literal.toBinary64?.isSome = true) :
    (∃ b, o.apply field actual literal = .ok b) ∨
      o.IsOrdering ∧ actual.toBinary64? = none ∧
        o.apply field actual literal = .error (.evidenceNotNumeric field actual) := by
  by_cases ho : o.IsOrdering
  · rcases numbers_eq_ok field actual (h ho) with ⟨ab, hab⟩ | ⟨hnone, herr⟩
    · left
      cases o with
      | equal => exact absurd rfl ho.1
      | notEqual => exact absurd rfl ho.2
      | _ => exact ⟨_, by rw [apply, hab]; rfl⟩
    · refine .inr ⟨ho, hnone, ?_⟩
      cases o with
      | equal => exact absurd rfl ho.1
      | notEqual => exact absurd rfl ho.2
      | _ => rw [apply, herr]; rfl
  · left
    cases o with
    | equal => exact ⟨_, rfl⟩
    | notEqual => exact ⟨_, rfl⟩
    | _ => exact absurd (by decide) ho

end Operator

namespace Rule

section Comparison

variable {evidence : EvidenceSource} {r : Rule} {actual : Scalar}

/-- The comparison that a rule makes with what its field holds. -/
def comparison (r : Rule) (actual : Scalar) : Except EvaluationError Bool :=
  (Operator.ofName r.operator).bind fun o => o.apply r.input actual r.value

theorem evaluate_of_none (h : evidence r.input = none) :
    (r.evaluate evidence).result = .error (.missingEvidence r.input) := by
  simp [evaluate, h]

theorem evaluate_of_some (h : evidence r.input = some actual) :
    (r.evaluate evidence).result = r.comparison actual := by
  simp only [evaluate, h]
  rfl

end Comparison

/-- The rule asks for an operator that there is, and for an ordering only with a number. -/
def Comparable (r : Rule) : Prop :=
  ∃ o, Operator.ofName? r.operator = some o ∧ (o.IsOrdering → r.value.toBinary64?.isSome = true)

/-- The rule asks for an ordering. -/
def Orders (r : Rule) : Prop := ∃ o, Operator.ofName? r.operator = some o ∧ o.IsOrdering

/-- The evidence has something for the rule that cannot be ordered. -/
structure Unordered (evidence : EvidenceSource) (r : Rule) (actual : Scalar) : Prop where
  orders : r.Orders
  evidence_eq : evidence r.input = some actual
  no_number : (∃ b, actual = .boolean b) ∨ ∃ t, actual = .text t

/-- A rule that can compare its literal fails because its field is missing, or because it asks for an
ordering of something that is no number. -/
theorem Comparable.cases_of_error {r : Rule} (h : r.Comparable) {evidence : EvidenceSource}
    {err : EvaluationError} (herr : (r.evaluate evidence).result = .error err) :
    err = .missingEvidence r.input ∧ evidence r.input = none ∨
      ∃ actual, err = .evidenceNotNumeric r.input actual ∧ r.Unordered evidence actual := by
  obtain ⟨o, ho, hliteral⟩ := h
  unfold evaluate at herr
  dsimp only at herr
  cases hev : evidence r.input with
  | none =>
    rw [hev] at herr
    cases herr
    exact .inl ⟨rfl, rfl⟩
  | some actual =>
    rw [hev, Operator.ofName, ho] at herr
    rcases o.apply_cases r.input actual hliteral with ⟨b, hb⟩ | ⟨hordering, hnone, hfail⟩
    · exact absurd (herr.symm.trans hb) (by simp)
    · cases herr.symm.trans hfail
      exact .inr ⟨actual, rfl, ⟨o, ho, hordering⟩, hev, Scalar.toBinary64?_eq_none_iff.mp hnone⟩

end Rule

/-! ## Operands -/

section Settle

variable {x : Except EvaluationError Bool}

theorem settle_eq_ok_true_iff : settle x = .ok true ↔ x = .ok true := by
  unfold settle
  split <;> simp

theorem settle_eq_ok_false_iff :
    settle x = .ok false ↔ x = .ok false ∨ ∃ field, x = .error (.missingEvidence field) := by
  unfold settle
  split
  case h_1 field => simp
  case h_2 hne =>
    rw [or_iff_left]
    rintro ⟨field, rfl⟩
    exact hne field rfl

end Settle

/-! ## Trees -/

namespace Tree

variable {evidence : EvidenceSource} {err : EvaluationError}

theorem settle_eq_error {x : Except EvaluationError Bool} (h : settle x = .error err) :
    x = .error err ∧ err.isMissingEvidence = false := by
  unfold settle at h
  split at h
  · cases h
  case h_2 hne =>
    refine ⟨h, ?_⟩
    cases err with
    | missingEvidence field => exact absurd h (hne field)
    | _ => rfl

mutual
/-- An error of a tree is one of its leaves. -/
theorem exists_leaf_of_error : ∀ {t : Tree}, (t.evaluate evidence).result = .error err →
    ∃ r ∈ t.leaves, (r.evaluate evidence).result = .error err
  | rule _ body, h => ⟨body, by simp [leaves], h⟩
  | logical operator ts, h => by
    have hoperands : (evaluateOperands evidence operator ts).result = .error err := h
    exact (exists_leaf_of_operands_error hoperands).1

/-- An error of operands is one of their leaves, and never that evidence is missing. -/
theorem exists_leaf_of_operands_error : ∀ {operator : Connective} {ts : List Tree},
    (evaluateOperands evidence operator ts).result = .error err →
    (∃ r ∈ leavesOfAll ts, (r.evaluate evidence).result = .error err) ∧
      err.isMissingEvidence = false
  | _, [], h => nomatch h
  | operator, t :: ts, h => by
    rw [evaluateOperands] at h
    split at h
    case h_1 e hsettle =>
      cases h
      obtain ⟨hfirst, hmissing⟩ := settle_eq_error hsettle
      obtain ⟨r, hr, hre⟩ := exists_leaf_of_error hfirst
      exact ⟨⟨r, List.mem_append_left _ hr, hre⟩, hmissing⟩
    case h_2 b _ =>
      split at h
      · cases h
      · obtain ⟨⟨r, hr, hre⟩, hmissing⟩ := exists_leaf_of_operands_error h
        exact ⟨⟨r, List.mem_append_right _ hr, hre⟩, hmissing⟩
end

/-- Only a bare rule reports missing evidence. -/
theorem eq_rule_of_missing {t : Tree} {field : String}
    (h : (t.evaluate evidence).result = .error (.missingEvidence field)) :
    ∃ key body, t = .rule key body := by
  cases t with
  | rule key body => exact ⟨key, body, rfl⟩
  | logical operator ts => cases (exists_leaf_of_operands_error h).2

end Tree
end Verdict
