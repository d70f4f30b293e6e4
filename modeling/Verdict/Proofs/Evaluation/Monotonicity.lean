import Mathlib
import Verdict.Proofs.Evaluation.Tree

/-!
# Evaluation with more evidence

Evidence may be extended by fields that were missing. What passed before then passes again, unless
a rule that was skipped for its missing field now fails: a missing field counts as false, and no
connective turns true operands into a false node.
-/

namespace Verdict

/-- Evidence with every field of other evidence at the same value, and perhaps with more. -/
def EvidenceSource.Extends (larger smaller : EvidenceSource) : Prop :=
  ∀ field actual, smaller field = some actual → larger field = some actual

section Settle

variable {x : Except EvaluationError Bool}

/-- What does not count as false is true or fails for another reason than missing evidence. -/
theorem settle_ne_ok_false_iff : settle x ≠ .ok false ↔
    x = .ok true ∨ ∃ err, x = .error err ∧ err.isMissingEvidence = false := by
  rcases x with err | b
  · cases err <;> simp [settle, EvaluationError.isMissingEvidence]
  · cases b <;> simp [settle]

end Settle

variable {evidence evidence' : EvidenceSource}

/-- A rule that holds has its field, so it still holds. -/
theorem Rule.holds_of_extends (h : EvidenceSource.Extends evidence' evidence) {r : Rule}
    (hr : (r.evaluate evidence).result = .ok true) : (r.evaluate evidence').result = .ok true := by
  cases hfield : evidence r.input with
  | none =>
    rw [evaluate_of_none hfield] at hr
    cases hr
  | some actual =>
    rw [evaluate_of_some hfield] at hr
    rw [evaluate_of_some (h _ _ hfield), hr]

namespace Tree

mutual
theorem settle_evaluate_ne_false (h : EvidenceSource.Extends evidence' evidence) : ∀ {t : Tree},
    settle (t.evaluate evidence).result = .ok true →
      settle (t.evaluate evidence').result ≠ .ok false
  | rule _ body, ht => by
    have hbody := Rule.holds_of_extends h (settle_eq_ok_true_iff.mp ht)
    exact settle_ne_ok_false_iff.mpr (.inl hbody)
  | logical operator ts, ht => by
    have hts := evaluateOperands_ne_false h (settle_eq_ok_true_iff.mp ht)
    intro hfalse
    rcases settle_eq_ok_false_iff.mp hfalse with hresult | ⟨field, hmissing⟩
    · exact hts hresult
    · obtain ⟨key, body, heq⟩ := eq_rule_of_missing hmissing
      cases heq

/-- The two evaluations may stop at different operands. An operand that stops only the second one
fails, or it decides the node for true. -/
theorem evaluateOperands_ne_false (h : EvidenceSource.Extends evidence' evidence) :
    ∀ {operator : Connective} {ts : List Tree},
      (evaluateOperands evidence operator ts).result = .ok true →
        (evaluateOperands evidence' operator ts).result ≠ .ok false
  | operator, [], hts => by
    have htrue : (!operator.decisive) = true := Except.ok.inj hts
    simp [evaluateOperands, Inquiry.ofResult, htrue]
  | operator, t :: ts, hts => by
    have hfirst : settle (t.evaluate evidence).result = .ok true →
        settle (t.evaluate evidence').result ≠ .ok false := settle_evaluate_ne_false h
    have hrest : (evaluateOperands evidence operator ts).result = .ok true →
        (evaluateOperands evidence' operator ts).result ≠ .ok false :=
      evaluateOperands_ne_false h
    rw [evaluateOperands] at hts ⊢
    cases hx : settle (t.evaluate evidence).result with
    | error err => simp [hx] at hts
    | ok b =>
      cases hy : settle (t.evaluate evidence').result with
      | error err => simp
      | ok b' =>
        simp only [hx, hy] at hts hfirst ⊢
        by_cases hdecides : b = operator.decisive
        · -- the first operand was true and is so again
          rw [if_pos hdecides] at hts
          have hb : b = true := Except.ok.inj hts
          have hb' : b' = true := by simpa [hb] using hfirst
          rw [if_pos (by rw [hb', ← hdecides, hb]), hb']
          simp
        · rw [if_neg hdecides] at hts
          by_cases hdecides' : b' = operator.decisive
          · rw [if_pos hdecides']
            intro hfalse
            have hb' : b' = false := Except.ok.inj hfalse
            have hb : b = true := by
              rw [← hdecides', hb'] at hdecides
              simpa using hdecides
            exact hfirst (by rw [hb]) (by rw [hb'])
          · rw [if_neg hdecides']
            exact hrest hts
end

/-- With more evidence a tree that passed passes, or a rule of it fails for another reason than
missing evidence. -/
theorem evaluate_of_extends (h : EvidenceSource.Extends evidence' evidence) {t : Tree}
    (pass : (t.evaluate evidence).result = .ok true) :
    (t.evaluate evidence').result = .ok true ∨
      ∃ err, (t.evaluate evidence').result = .error err ∧ err.isMissingEvidence = false :=
  settle_ne_ok_false_iff.mp (settle_evaluate_ne_false h (settle_eq_ok_true_iff.mpr pass))

theorem evaluate_of_extends_scores :
    let score : Tree := .rule ⟨"score", 1⟩ ⟨"score", ">", .integer 5, "THRESHOLD"⟩
    let adult : Tree := .rule ⟨"adult", 1⟩ ⟨"age", ">=", .integer 18, "THRESHOLD"⟩
    let t : Tree := .logical .or [.logical .and [score, adult], adult]
    let smaller : EvidenceSource := fun field => if field = "age" then some (.integer 20) else none
    let larger : EvidenceSource := fun field =>
      if field = "score" then some (.text "high") else smaller field
    EvidenceSource.Extends larger smaller ∧ (t.evaluate smaller).result = .ok true ∧
      ∃ err, (t.evaluate larger).result = .error err ∧ err.isMissingEvidence = false := by
  intro score adult t smaller larger
  have extends_smaller : EvidenceSource.Extends larger smaller := by
    intro field actual hfield
    by_cases hscore : field = "score"
    · subst hscore
      cases hfield
    · exact (if_neg hscore).trans hfield
  have pass : (t.evaluate smaller).result = .ok true := by decide +kernel
  refine ⟨extends_smaller, pass, (evaluate_of_extends extends_smaller pass).resolve_left ?_⟩
  decide

end Tree
end Verdict
