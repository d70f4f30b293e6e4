import Verdict.Proofs.Evaluation.Lookups

/-!
# Nested operands of one operator

An operand that joins its own operands by the operator of its node may be replaced by them. The
inner node already counts missing evidence as false, so the outer one has nothing left to settle,
and an error stops both nodes at the same operand.
-/

namespace Verdict

theorem settle_settle (x : Except EvaluationError Bool) : settle (settle x) = settle x := by
  rcases x with err | b
  · cases err <;> rfl
  · rfl

namespace Tree

variable {evidence : EvidenceSource} {operator : Connective} {t t' : Tree}
  {ts ts' before after : List Tree}

/-- An operand that differs from another one by lookups made before makes the same difference to the
node. -/
theorem evaluateOperands_after {fields : List String}
    (h : t'.evaluate evidence = (t.evaluate evidence).after fields) (ts : List Tree) :
    evaluateOperands evidence operator (t' :: ts) =
      (evaluateOperands evidence operator (t :: ts)).after fields := by
  have hresult : (t'.evaluate evidence).result = (t.evaluate evidence).result := by rw [h]; rfl
  have hasked : (t'.evaluate evidence).asked = fields ++ (t.evaluate evidence).asked := by
    rw [h]
    rfl
  by_cases hstops : t.Stops evidence operator
  · have hstops' : t'.Stops evidence operator := by rwa [Stops, hresult]
    rw [evaluateOperands_of_stops hstops, evaluateOperands_of_stops hstops', hresult, hasked]
    rfl
  · have hstops' : ¬ t'.Stops evidence operator := by rwa [Stops, hresult]
    rw [evaluateOperands_of_not_stops hstops, evaluateOperands_of_not_stops hstops', hasked]
    simp [Inquiry.after]

/-- Operands that make no difference make none after others. -/
theorem evaluateOperands_append_congr
    (h : evaluateOperands evidence operator ts = evaluateOperands evidence operator ts')
    (before : List Tree) : evaluateOperands evidence operator (before ++ ts) =
      evaluateOperands evidence operator (before ++ ts') := by
  induction before with
  | nil => exact h
  | cons s before ih =>
    rw [List.cons_append, List.cons_append]
    by_cases hstops : s.Stops evidence operator
    · rw [evaluateOperands_of_stops hstops, evaluateOperands_of_stops hstops]
    · rw [evaluateOperands_of_not_stops hstops, evaluateOperands_of_not_stops hstops, ih]

/-- A node in front of other operands of its operator is evaluated as its own operands are there. -/
theorem evaluateOperands_opened (ts after : List Tree) :
    evaluateOperands evidence operator (logical operator ts :: after) =
      evaluateOperands evidence operator (ts ++ after) := by
  induction ts with
  | nil =>
    have hpassed : ¬ (logical operator []).Stops evidence operator := not_not.mpr rfl
    rw [evaluateOperands_of_not_stops hpassed]
    rfl
  | cons t ts ih =>
    rw [List.cons_append]
    by_cases hstops : t.Stops evidence operator
    · have hnode : (logical operator (t :: ts)).evaluate evidence =
          ⟨(t.evaluate evidence).asked, settle (t.evaluate evidence).result⟩ :=
        evaluateOperands_of_stops hstops
      have hstops' : (logical operator (t :: ts)).Stops evidence operator := by
        rwa [Stops, hnode, settle_settle]
      rw [evaluateOperands_of_stops hstops, evaluateOperands_of_stops hstops', hnode, settle_settle]
    · have hnode : (logical operator (t :: ts)).evaluate evidence =
          ((logical operator ts).evaluate evidence).after (t.evaluate evidence).asked :=
        evaluateOperands_of_not_stops hstops
      rw [evaluateOperands_of_not_stops hstops, ← ih, evaluateOperands_after hnode]

/-- The second tree is the first one with operands that have the operator of their node replaced by
their own operands, at any number of places. -/
inductive Unnested : Tree → Tree → Prop
  | refl (t : Tree) : Unnested t t
  | opened {operator : Connective} {before ts after : List Tree} :
      Unnested (logical operator (before ++ logical operator ts :: after))
        (logical operator (before ++ (ts ++ after)))
  | inside {operator : Connective} {before after : List Tree} {t t' : Tree} : Unnested t t' →
      Unnested (logical operator (before ++ t :: after)) (logical operator (before ++ t' :: after))
  | trans {t t' t'' : Tree} : Unnested t t' → Unnested t' t'' → Unnested t t''

/-- Trees that differ by the nesting of one operator make the same lookups and come to the same
result, whatever the evidence misses and wherever a rule fails. -/
theorem evaluate_of_unnested (h : Unnested t t') (evidence : EvidenceSource) :
    t'.evaluate evidence = t.evaluate evidence := by
  induction h with
  | refl => rfl
  | @opened operator before ts after =>
    exact (evaluateOperands_append_congr (evaluateOperands_opened ts after) before).symm
  | @inside operator before after t t' _ ih =>
    have hsame : t'.evaluate evidence = (t.evaluate evidence).after [] := ih
    exact evaluateOperands_append_congr (evaluateOperands_after hsame after) before
  | trans _ _ ih ih' => exact ih'.trans ih

theorem evaluate_of_unnested_limits :
    let limit (field : String) : Tree :=
      .rule ⟨field, 1⟩ ⟨field, "<", .integer 10, "THRESHOLD"⟩
    let nested : Tree := .logical .and [limit "count",
      .logical .and [.logical .and [], limit "age"],
      .logical .or [.logical .or [limit "low", limit "middle"], limit "high"]]
    let flat : Tree := .logical .and [limit "count", limit "age",
      .logical .or [limit "low", limit "middle", limit "high"]]
    let evidence : EvidenceSource := fun field =>
      if field = "low" then none else if field = "middle" then some (.text "5")
      else some (.integer 3)
    Unnested nested flat ∧ (nested.evaluate evidence).asked = ["count", "age", "low", "middle"] ∧
      flat.evaluate evidence = nested.evaluate evidence ∧
      (flat.evaluate evidence).result = .error (.evidenceNotNumeric "middle" (.text "5")) := by
  intro limit nested flat evidence
  have houter : Unnested nested (.logical .and [limit "count", .logical .and [], limit "age",
      .logical .or [.logical .or [limit "low", limit "middle"], limit "high"]]) :=
    @Unnested.opened .and [limit "count"] _ _
  have hempty : Unnested (.logical .and [limit "count", .logical .and [], limit "age",
      .logical .or [.logical .or [limit "low", limit "middle"], limit "high"]])
      (.logical .and [limit "count", limit "age",
        .logical .or [.logical .or [limit "low", limit "middle"], limit "high"]]) :=
    @Unnested.opened .and [limit "count"] [] _
  have hinner : Unnested (.logical .and [limit "count", limit "age",
      .logical .or [.logical .or [limit "low", limit "middle"], limit "high"]]) flat :=
    @Unnested.inside .and [limit "count", limit "age"] [] _ _ (@Unnested.opened .or [] _ _)
  have hflat : Unnested nested flat := houter.trans (hempty.trans hinner)
  refine ⟨hflat, by decide +kernel, evaluate_of_unnested hflat evidence, ?_⟩
  rw [evaluate_of_unnested hflat]
  decide +kernel

end Tree
end Verdict
