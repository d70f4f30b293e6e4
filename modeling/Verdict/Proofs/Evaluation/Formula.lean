import Mathlib
import Verdict.Proofs.Evaluation.Tree

/-!
# Trees as formulas

A tree is a formula over its rules. On evidence on which none of its rules fails, each rule says yes
or no, where a rule without its field says no, and a node comes to the value of the formula. So it
makes no difference there in which order its operands are written, or how often.
-/

namespace Verdict

/-! ## Rules -/

namespace Rule

variable {evidence : EvidenceSource} {r : Rule}

/-- What a rule says: no if its field is missing, and otherwise what its comparison comes to. A
comparison that fails says no. -/
def holds (evidence : EvidenceSource) (r : Rule) : Bool :=
  match evidence r.input with
  | none => false
  | some actual => (r.comparison actual).toOption.getD false

/-- The rule fails at most because its field is missing. -/
def Answers (evidence : EvidenceSource) (r : Rule) : Prop :=
  ∀ err, (r.evaluate evidence).result = .error err → err.isMissingEvidence = true

instance (evidence : EvidenceSource) (r : Rule) : Decidable (r.Answers evidence) :=
  match h : (r.evaluate evidence).result with
  | .ok b => .isTrue (by simp [Answers, h])
  | .error err => decidable_of_iff (err.isMissingEvidence = true) (by simp [Answers, h])

theorem Answers.settle_evaluate (h : r.Answers evidence) :
    settle (r.evaluate evidence).result = .ok (r.holds evidence) := by
  unfold Answers at h
  unfold holds
  cases hfield : evidence r.input with
  | none => simp [evaluate_of_none hfield, settle]
  | some actual =>
    rw [evaluate_of_some hfield] at h ⊢
    cases hresult : r.comparison actual with
    | ok b => simp [settle, hresult]
    | error err =>
      have hmissing := h err hresult
      cases err with
      | missingEvidence field => simp [settle, hresult]
      | _ => cases hmissing

end Rule

/-! ## Formulas -/

namespace Tree

mutual
/-- The value of a tree as a formula over what its rules say. -/
def value (holds : Rule → Bool) : Tree → Bool
  | rule _ body => holds body
  | logical .and ts => (values holds ts).all id
  | logical .or ts => (values holds ts).any id

def values (holds : Rule → Bool) : List Tree → List Bool
  | [] => []
  | t :: ts => value holds t :: values holds ts
end

variable {holds : Rule → Bool} {operator : Connective} {t t' : Tree} {ts ts' : List Tree}

theorem values_eq_map (holds : Rule → Bool) (ts : List Tree) :
    values holds ts = ts.map (value holds) := by
  induction ts with
  | nil => rfl
  | cons t ts ih => simp [values, ih]

/-- A node has the value that decides it exactly if one of its operands has. -/
theorem value_eq_decisive_iff :
    (logical operator ts).value holds = operator.decisive ↔
      ∃ t ∈ ts, t.value holds = operator.decisive := by
  cases operator <;> simp [value, values_eq_map, Connective.decisive]

/-- Two nodes have the same value if either both have an operand that decides them or none. -/
theorem value_congr (h : (∃ t ∈ ts, t.value holds = operator.decisive) ↔
      ∃ t ∈ ts', t.value holds = operator.decisive) :
    (logical operator ts).value holds = (logical operator ts').value holds := by
  rw [← value_eq_decisive_iff, ← value_eq_decisive_iff] at h
  generalize (logical operator ts).value holds = b, (logical operator ts').value holds = b' at h
  revert h
  cases b <;> cases b' <;> cases operator.decisive <;> simp

theorem value_nil : (logical operator []).value holds = !operator.decisive := by
  cases operator <;> rfl

theorem value_cons : (logical operator (t :: ts)).value holds =
    if t.value holds = operator.decisive then t.value holds else (logical operator ts).value holds := by
  cases operator <;> simp only [value, values, Connective.decisive, List.all_cons, List.any_cons] <;>
    cases t.value holds <;> simp

/-! ## Evaluation -/

variable {evidence : EvidenceSource}

mutual
/-- If its rules answer, a tree counts as its value inside a node. -/
theorem settle_evaluate_eq_value : ∀ {t : Tree}, (∀ r ∈ t.leaves, r.Answers evidence) →
    settle (t.evaluate evidence).result = .ok (t.value (Rule.holds evidence))
  | rule _ body, h => (h body (by simp [leaves])).settle_evaluate
  | logical operator ts, h => by
    rw [evaluate, evaluateOperands_eq_value operator h]
    rfl

/-- A node comes to its value: no operand after the one that decides it matters. -/
theorem evaluateOperands_eq_value (operator : Connective) : ∀ {ts : List Tree},
    (∀ r ∈ leavesOfAll ts, r.Answers evidence) →
    (evaluateOperands evidence operator ts).result =
      .ok ((logical operator ts).value (Rule.holds evidence))
  | [], _ => by rw [value_nil]; rfl
  | t :: ts, h => by
    rw [leavesOfAll] at h
    have hfirst := settle_evaluate_eq_value fun r hr => h r (List.mem_append_left _ hr)
    have hrest := evaluateOperands_eq_value operator fun r hr => h r (List.mem_append_right _ hr)
    rw [value_cons, evaluateOperands, hfirst]
    dsimp only
    split_ifs
    · rfl
    · exact hrest
end

/-! ## Rearrangement -/

/-- One tree is the other with operands of its nodes written in another order or repeated. -/
inductive Rearranged : Tree → Tree → Prop
  | refl (t : Tree) : Rearranged t t
  | permuted {operator : Connective} {ts ts' : List Tree} : ts.Perm ts' →
      Rearranged (logical operator ts) (logical operator ts')
  | repeated {operator : Connective} {t : Tree} {ts : List Tree} : t ∈ ts →
      Rearranged (logical operator ts) (logical operator (t :: ts))
  | inside {operator : Connective} {before after : List Tree} {t t' : Tree} : Rearranged t t' →
      Rearranged (logical operator (before ++ t :: after)) (logical operator (before ++ t' :: after))
  | trans {t t' t'' : Tree} : Rearranged t t' → Rearranged t' t'' → Rearranged t t''

theorem mem_leavesOfAll_iff {r : Rule} : r ∈ leavesOfAll ts ↔ ∃ t ∈ ts, r ∈ t.leaves := by
  induction ts with
  | nil => simp [leavesOfAll]
  | cons t ts ih => simp [leavesOfAll, ih]

theorem Rearranged.mem_leaves_iff (h : Rearranged t t') (r : Rule) : r ∈ t.leaves ↔ r ∈ t'.leaves := by
  induction h with
  | refl => rfl
  | permuted hperm => simp only [leaves, mem_leavesOfAll_iff, hperm.mem_iff]
  | @repeated operator t ts ht =>
    simp only [leaves, mem_leavesOfAll_iff, List.exists_mem_cons_iff, iff_or_self]
    intro hr
    exact ⟨t, ht, hr⟩
  | inside _ ih => simp [leaves, mem_leavesOfAll_iff, ih, or_and_right, exists_or]
  | trans _ _ ih ih' => exact ih.trans ih'

theorem Rearranged.value_eq (h : Rearranged t t') (holds : Rule → Bool) :
    t.value holds = t'.value holds := by
  induction h with
  | refl => rfl
  | permuted hperm =>
    apply value_congr
    simp only [hperm.mem_iff]
  | @repeated operator t ts ht =>
    apply value_congr
    simp only [List.exists_mem_cons_iff, iff_or_self]
    intro hdecides
    exact ⟨t, ht, hdecides⟩
  | inside _ ih =>
    apply value_congr
    simp [ih, or_and_right, exists_or]
  | trans _ _ ih ih' => exact ih.trans ih'

/-- A rearranged node is a node. -/
theorem Rearranged.exists_logical (h : Rearranged t t') {operator : Connective} {ts : List Tree}
    (ht : t = logical operator ts) : ∃ ts', t' = logical operator ts' := by
  induction h generalizing ts with
  | refl => exact ⟨ts, ht⟩
  | permuted => cases ht; exact ⟨_, rfl⟩
  | repeated => cases ht; exact ⟨_, rfl⟩
  | inside => cases ht; exact ⟨_, rfl⟩
  | trans _ _ ih ih' =>
    obtain ⟨ts', ht'⟩ := ih ht
    exact ih' ht'

/-- A tree that is a node never reports missing evidence. On evidence to which its rules answer it
comes to the value of its formula, and so does every rearrangement of it. -/
theorem evaluate_node (evidence : EvidenceSource) (operator : Connective) (ts : List Tree) :
    (∀ field, ((logical operator ts).evaluate evidence).result ≠
      .error (.missingEvidence field)) ∧
    ((∀ r ∈ (logical operator ts).leaves, r.Answers evidence) →
      ((logical operator ts).evaluate evidence).result =
        .ok ((logical operator ts).value (Rule.holds evidence)) ∧
      ∀ t, Rearranged (logical operator ts) t →
        (t.evaluate evidence).result = ((logical operator ts).evaluate evidence).result) := by
  constructor
  · intro field hmissing
    obtain ⟨key, body, hrule⟩ := eq_rule_of_missing hmissing
    cases hrule
  · intro answers
    have hvalue := evaluateOperands_eq_value operator answers
    refine ⟨hvalue, fun t ht => ?_⟩
    obtain ⟨ts', rfl⟩ := ht.exists_logical rfl
    have answers' : ∀ r ∈ (logical operator ts').leaves, r.Answers evidence :=
      fun r hr => answers r ((ht.mem_leaves_iff r).mpr hr)
    calc ((logical operator ts').evaluate evidence).result
        = .ok ((logical operator ts').value (Rule.holds evidence)) :=
          evaluateOperands_eq_value operator answers'
      _ = .ok ((logical operator ts).value (Rule.holds evidence)) := by
          rw [ht.value_eq]
      _ = ((logical operator ts).evaluate evidence).result := hvalue.symm

/-- Who may enter: adults, and anyone from the country with a consent. -/
def entryCheck : Tree :=
  .logical .or [.logical .and [.rule ⟨"consent", 1⟩ ⟨"consent", "==", .boolean true, "EQUALITY"⟩,
      .rule ⟨"home", 1⟩ ⟨"country", "!=", .text "", "EQUALITY"⟩],
    .rule ⟨"adult", 1⟩ ⟨"age", ">=", .integer 18, "THRESHOLD"⟩]

/-- The same check with the age asked for first, the country before the consent and once more after
it. -/
def entryCheckAgain : Tree :=
  .logical .or [.rule ⟨"adult", 1⟩ ⟨"age", ">=", .integer 18, "THRESHOLD"⟩,
    .logical .and [.rule ⟨"home", 1⟩ ⟨"country", "!=", .text "", "EQUALITY"⟩,
      .rule ⟨"consent", 1⟩ ⟨"consent", "==", .boolean true, "EQUALITY"⟩,
      .rule ⟨"home", 1⟩ ⟨"country", "!=", .text "", "EQUALITY"⟩]]

theorem rearranged_entryCheck : Rearranged entryCheck entryCheckAgain := by
  let home : Tree := .rule ⟨"home", 1⟩ ⟨"country", "!=", .text "", "EQUALITY"⟩
  let consent : Tree := .rule ⟨"consent", 1⟩ ⟨"consent", "==", .boolean true, "EQUALITY"⟩
  let adult : Tree := .rule ⟨"adult", 1⟩ ⟨"age", ">=", .integer 18, "THRESHOLD"⟩
  have hnode : Rearranged (.logical .and [consent, home]) (.logical .and [home, consent, home]) :=
    .repeated (by simp)
  exact (@Rearranged.inside .or [] [adult] _ _ hnode).trans (.permuted (List.Perm.swap ..))

/-- A minor from the country, who says nothing about a consent. -/
def noConsent : EvidenceSource := fun field =>
  if field = "age" then some (.integer 17) else if field = "country" then some (.text "NL") else none

theorem evaluate_node_entryCheck :
    (∀ r ∈ entryCheck.leaves, r.Answers noConsent) ∧
      (entryCheck.evaluate noConsent).result = .ok false ∧
      (entryCheckAgain.evaluate noConsent).result = .ok false := by
  have answers : ∀ r ∈ entryCheck.leaves, r.Answers noConsent := by decide +kernel
  obtain ⟨hvalue, hrearranged⟩ := (evaluate_node noConsent _ _).2 answers
  have hfalse : (entryCheck.evaluate noConsent).result = .ok false := hvalue.trans (by decide +kernel)
  exact ⟨answers, hfalse, (hrearranged _ rearranged_entryCheck).trans hfalse⟩

end Tree
end Verdict
