import Mathlib
import Verdict.Proofs.Evaluation.Vacuity

/-!
# Trees of expressions

A tree mirrors its expression node by node, with the loaded rule in the place of every reference. It
is built as long as no rule is missing. The leaves are gone through with their repetitions, while
the references of an expression are listed once; still the first rule that is missing is the same.
-/

namespace Verdict

open Results

/-! ## Rules of an archive -/

namespace LoadedArchive

/-- What is loaded under a key, if that is a rule. -/
def HoldsRule (l : LoadedArchive) (key : VersionedId) (body : Rule) : Prop :=
  ∃ a, l.artifact? (key.withKind .rule) = some a ∧ a.payload = .rule body

/-- The first of some keys under which no rule is loaded. -/
def FirstWithoutRule (l : LoadedArchive) (keys : List VersionedId) (key : VersionedId) : Prop :=
  ∃ before after, keys = before ++ key :: after ∧ (∀ k ∈ before, ∃ body, l.HoldsRule k body) ∧
    ¬∃ body, l.HoldsRule key body

/-- Whether no rule is found under a key. -/
def lacksRule (l : LoadedArchive) (key : VersionedId) : Bool := !(l.rule key).isOk

variable {l : LoadedArchive} {key : VersionedId}

theorem rule_eq_ok_iff {body : Rule} : l.rule key = .ok body ↔ l.HoldsRule key body := by
  rw [rule, payload_eq_ok_iff]
  simp only [HoldsRule, Payload.asRule?_eq_some_iff]

theorem lacksRule_eq_false_iff : l.lacksRule key = false ↔ ∃ body, l.HoldsRule key body := by
  simp only [← rule_eq_ok_iff]
  cases h : l.rule key <;> simp [lacksRule, h]

theorem lacksRule_eq_true_iff : l.lacksRule key = true ↔ ¬∃ body, l.HoldsRule key body := by
  rw [← lacksRule_eq_false_iff, Bool.not_eq_false]

/-- A rule that is not found is reported under its own reference. -/
theorem rule_eq_error_iff {missing : NotLoaded} :
    l.rule key = .error missing ↔ l.lacksRule key = true ∧ missing = ⟨key.withKind .rule⟩ := by
  unfold lacksRule rule payload
  split <;> simp [@eq_comm _ missing]

theorem firstWithoutRule_iff {keys : List VersionedId} :
    l.FirstWithoutRule keys key ↔ keys.find? l.lacksRule = some key := by
  rw [List.find?_eq_some_iff_append, lacksRule_eq_true_iff]
  simp only [FirstWithoutRule, Bool.not_eq_true', lacksRule_eq_false_iff]
  constructor
  · rintro ⟨before, after, rfl, hbefore, hkey⟩
    exact ⟨hkey, before, after, rfl, hbefore⟩
  · rintro ⟨hkey, before, after, rfl, hbefore⟩
    exact ⟨before, after, rfl, hbefore, hkey⟩

theorem find?_lacksRule_eq_none {keys : List VersionedId}
    (h : ∀ k ∈ keys, ∃ body, l.rule k = .ok body) : keys.find? l.lacksRule = none := by
  rw [List.find?_eq_none]
  intro k hk
  rw [Bool.not_eq_true, lacksRule_eq_false_iff]
  simpa only [← rule_eq_ok_iff] using h k hk

end LoadedArchive

namespace Tree

variable {l : LoadedArchive}

/-! ## The tree of an expression -/

/-- The tree has the nodes of the expression in their order, and at every leaf the key of the
reference with the rule that is loaded under it. -/
inductive Mirrors (l : LoadedArchive) : Tree → Expression → Prop
  | rule {key : VersionedId} {body : Rule} : l.HoldsRule key body →
      Mirrors l (.rule key body) (.ruleRef key)
  | logical (operator : Connective) {ts : List Tree} {es : List Expression} :
      List.Forall₂ (Mirrors l) ts es → Mirrors l (.logical operator ts) (.logical operator es)

theorem mirrors_ruleRef_iff {t : Tree} {key : VersionedId} :
    t.Mirrors l (.ruleRef key) ↔ ∃ body, l.HoldsRule key body ∧ t = .rule key body := by
  constructor
  · rintro ⟨h⟩
    exact ⟨_, h, rfl⟩
  · rintro ⟨body, h, rfl⟩
    exact .rule h

theorem mirrors_logical_iff {t : Tree} {operator : Connective} {es : List Expression} :
    t.Mirrors l (.logical operator es) ↔
      ∃ ts, List.Forall₂ (Mirrors l) ts es ∧ t = .logical operator ts := by
  constructor
  · rintro (_ | ⟨_, h⟩)
    exact ⟨_, h, rfl⟩
  · rintro ⟨ts, h, rfl⟩
    exact .logical operator h

mutual
theorem ofExpression_eq_ok_iff : ∀ {e : Expression} {t : Tree},
    ofExpression l e = .ok t ↔ t.Mirrors l e
  | .ruleRef key, t => by
    rw [mirrors_ruleRef_iff, ofExpression]
    simp only [← LoadedArchive.rule_eq_ok_iff]
    cases l.rule key <;> simp [@eq_comm _ t]
  | .logical operator es, t => by
    rw [mirrors_logical_iff, ofExpression]
    simp only [← ofExpressions_eq_ok_iff]
    cases ofExpressions l es <;> simp [@eq_comm _ t]

theorem ofExpressions_eq_ok_iff : ∀ {es : List Expression} {ts : List Tree},
    ofExpressions l es = .ok ts ↔ List.Forall₂ (Mirrors l) ts es
  | [], ts => by
    rw [ofExpressions, List.forall₂_nil_right_iff, Except.ok.injEq, eq_comm]
  | e :: es, ts => by
    rw [ofExpressions, List.forall₂_cons_right_iff]
    simp only [← ofExpression_eq_ok_iff, ← ofExpressions_eq_ok_iff]
    cases ofExpression l e with
    | error missing => simp
    | ok t => cases ofExpressions l es <;> simp [@eq_comm _ ts]
end

mutual
theorem Mirrors.size_eq : ∀ {e : Expression} {t : Tree}, t.Mirrors l e → t.size = e.size
  | .ruleRef _, _, .rule _ => rfl
  | .logical _ es, _, .logical _ h => by
    rw [size, Expression.size, sizeOfAll_eq h]

theorem sizeOfAll_eq : ∀ {es : List Expression} {ts : List Tree},
    List.Forall₂ (Mirrors l) ts es → sizeOfAll ts = Expression.sizeOfAll es
  | [], _, .nil => rfl
  | e :: es, _, .cons h hs => by
    rw [sizeOfAll, Expression.sizeOfAll, h.size_eq, sizeOfAll_eq hs]
end

/-! ## The first missing rule -/

mutual
/-- The first leaf without a rule is reported. -/
theorem ofExpression_eq_error_iff {missing : NotLoaded} : ∀ {e : Expression},
    ofExpression l e = .error missing ↔
      ∃ key, e.leaves.find? l.lacksRule = some key ∧ missing = ⟨key.withKind .rule⟩
  | .ruleRef key => by
    have hrule : ofExpression l (.ruleRef key) = .error missing ↔ l.rule key = .error missing := by
      rw [ofExpression]
      cases l.rule key <;> simp
    rw [hrule, LoadedArchive.rule_eq_error_iff, Expression.leaves]
    constructor
    · rintro ⟨hlacks, rfl⟩
      exact ⟨key, List.find?_cons_of_pos hlacks, rfl⟩
    · rintro ⟨k, hk, rfl⟩
      obtain rfl := List.mem_singleton.mp (List.mem_of_find?_eq_some hk)
      exact ⟨List.find?_some hk, rfl⟩
  | .logical operator es => by
    rw [Expression.leaves, ← ofExpressions_eq_error_iff, ofExpression]
    cases ofExpressions l es <;> simp

theorem ofExpressions_eq_error_iff {missing : NotLoaded} : ∀ {es : List Expression},
    ofExpressions l es = .error missing ↔
      ∃ key, (Expression.leavesOfAll es).find? l.lacksRule = some key ∧
        missing = ⟨key.withKind .rule⟩
  | [] => by simp [ofExpressions, Expression.leavesOfAll]
  | e :: es => by
    rw [Expression.leavesOfAll, List.find?_append, ofExpressions]
    cases hfirst : ofExpression l e with
    | error first =>
      obtain ⟨key, hkey, rfl⟩ := ofExpression_eq_error_iff.mp hfirst
      rw [hkey, Option.some_or]
      simp [@eq_comm _ missing]
    | ok t =>
      rw [LoadedArchive.find?_lacksRule_eq_none (rule_of_ofExpression hfirst), Option.none_or,
        ← ofExpressions_eq_error_iff]
      cases ofExpressions l es <;> simp
end

/-- The tree of an expression is built exactly if every rule that the expression refers to is loaded
at its own version, and it mirrors the expression then. Otherwise the first reference without a rule
is reported. -/
theorem ofExpression_resolves (l : LoadedArchive) (e : Expression) :
    ((∃ t, ofExpression l e = .ok t) ↔ ∀ key ∈ e.ruleRefs, ∃ body, l.HoldsRule key body) ∧
    (∀ t, ofExpression l e = .ok t ↔ t.Mirrors l e) ∧
    (∀ t, ofExpression l e = .ok t → t.size = e.size) ∧
    ∀ missing, ofExpression l e = .error missing ↔
      ∃ key, l.FirstWithoutRule e.ruleRefs key ∧ missing = ⟨key.withKind .rule⟩ := by
  refine ⟨?_, fun t => ofExpression_eq_ok_iff, ?_, ?_⟩
  · simp only [Expression.mem_ruleRefs_iff, ← LoadedArchive.rule_eq_ok_iff]
    constructor
    · rintro ⟨t, ht⟩
      exact rule_of_ofExpression ht
    · exact exists_ofExpression
  · intro t ht
    exact (ofExpression_eq_ok_iff.mp ht).size_eq
  · intro missing
    simp only [LoadedArchive.firstWithoutRule_iff, Expression.find?_ruleRefs]
    exact ofExpression_eq_error_iff

/-- An archive of two rules, one of them in two versions. -/
def twoRules : LoadedArchive :=
  let artifact (id : String) (version : Version) (r : Rule) : Artifact :=
    ⟨id, version, ⟨"1.0", 5, ""⟩, [], .rule r⟩
  ⟨⟨"c1", 1, 5, "1.0"⟩, Registry.ofArtifacts [
    artifact "adult" 1 ⟨"age", ">=", .integer 18, "THRESHOLD"⟩,
    artifact "adult" 2 ⟨"age", ">=", .integer 21, "THRESHOLD"⟩,
    artifact "member" 1 ⟨"member", "==", .boolean true, "EQUALITY"⟩]⟩

/-- Both versions of a rule stand in one tree, one of them twice. Of two references without a rule
the one that is met first is reported, although the other one is nearer to the root. -/
theorem ofExpression_resolves_twoRules :
    let entry : Expression := .logical .or [.logical .and [.ruleRef ⟨"adult", 1⟩,
      .ruleRef ⟨"member", 1⟩], .ruleRef ⟨"adult", 2⟩, .ruleRef ⟨"adult", 1⟩]
    let dangling : Expression := .logical .or [.logical .and [.ruleRef ⟨"adult", 1⟩,
      .ruleRef ⟨"member", 2⟩], .ruleRef ⟨"guest", 1⟩]
    (∃ t, ofExpression twoRules entry = .ok t ∧ t.Mirrors twoRules entry ∧ t.size = 6) ∧
      ofExpression twoRules dangling = .error ⟨⟨.rule, "member", 2⟩⟩ ∧
      twoRules.FirstWithoutRule dangling.ruleRefs ⟨"member", 2⟩ := by
  intro entry dangling
  obtain ⟨hbuilt, hmirrors, hsize, -⟩ := ofExpression_resolves twoRules entry
  obtain ⟨-, -, -, hmissing⟩ := ofExpression_resolves twoRules dangling
  have hrules : ∀ key ∈ entry.ruleRefs, ∃ body, twoRules.HoldsRule key body := by
    simp only [← LoadedArchive.lacksRule_eq_false_iff]
    decide +kernel
  have hfirst : twoRules.FirstWithoutRule dangling.ruleRefs ⟨"member", 2⟩ :=
    LoadedArchive.firstWithoutRule_iff.mpr (by decide +kernel)
  obtain ⟨t, ht⟩ := hbuilt.mpr hrules
  exact ⟨⟨t, ht, (hmirrors t).mp ht, hsize t ht⟩, (hmissing _).mpr ⟨_, hfirst, rfl⟩, hfirst⟩

end Tree
end Verdict
