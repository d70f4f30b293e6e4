import Mathlib
import Verdict.Payload.Basic
import Verdict.Proofs.FirstOccurrences

/-!
# What a payload refers to

A ruleset refers to the rules at its leaves, a task to its ruleset, and a challenge to its tasks.
-/

namespace Verdict

namespace Expression

theorem mem_addRef {seen : List VersionedId} {r k : VersionedId} :
    k ∈ addRef seen r ↔ k ∈ seen ∨ k = r := by
  unfold addRef
  split_ifs with h
  · rw [iff_self_or]
    rintro rfl
    exact h
  · rw [List.mem_append, List.mem_singleton]

mutual
theorem mem_collectRefs {k : VersionedId} : ∀ {e : Expression} {seen : List VersionedId},
    k ∈ collectRefs seen e ↔ k ∈ seen ∨ k ∈ e.leaves
  | .ruleRef r, seen => by rw [collectRefs, mem_addRef, leaves, List.mem_singleton]
  | .logical _ es, seen => by rw [collectRefs, leaves, mem_collectRefsOfAll]

theorem mem_collectRefsOfAll {k : VersionedId} : ∀ {es : List Expression} {seen : List VersionedId},
    k ∈ collectRefsOfAll seen es ↔ k ∈ seen ∨ k ∈ leavesOfAll es
  | [], seen => by simp [collectRefsOfAll, leavesOfAll]
  | e :: es, seen => by
    rw [collectRefsOfAll, mem_collectRefsOfAll, mem_collectRefs (e := e), leavesOfAll,
      List.mem_append, or_assoc]
end

mutual
/-- The references are collected leaf by leaf. -/
theorem collectRefs_eq_foldl (seen : List VersionedId) :
    ∀ e : Expression, collectRefs seen e = e.leaves.foldl addRef seen
  | .ruleRef _ => rfl
  | .logical _ es => collectRefsOfAll_eq_foldl seen es

theorem collectRefsOfAll_eq_foldl (seen : List VersionedId) :
    ∀ es : List Expression, collectRefsOfAll seen es = (leavesOfAll es).foldl addRef seen
  | [] => rfl
  | e :: es => by
    rw [collectRefsOfAll, leavesOfAll, List.foldl_append, collectRefs_eq_foldl seen e,
      collectRefsOfAll_eq_foldl _ es]
end

/-- A reference that is left out was seen before, so the first with a property stays the first. -/
theorem find?_foldl_addRef (p : VersionedId → Bool) (keys seen : List VersionedId) :
    (keys.foldl addRef seen).find? p = (seen ++ keys).find? p := by
  induction keys generalizing seen with
  | nil => rw [List.foldl_nil, List.append_nil]
  | cons k keys ih =>
    rw [List.foldl_cons, ih, addRef]
    split_ifs with hseen
    · rw [List.find?_append, List.find?_append]
      cases hp : p k with
      | false => rw [List.find?_cons_of_neg (by simp [hp])]
      | true =>
        have hfound : (seen.find? p).isSome = true := List.find?_isSome.mpr ⟨k, hseen, hp⟩
        rw [Option.or_of_isSome hfound, Option.or_of_isSome hfound]
    · rw [List.append_assoc, List.singleton_append]

/-- The first reference with a property is the first leaf with it. -/
theorem find?_ruleRefs (p : VersionedId → Bool) (e : Expression) :
    e.ruleRefs.find? p = e.leaves.find? p := by
  rw [ruleRefs, collectRefs_eq_foldl, find?_foldl_addRef, List.nil_append]

/-- The references of a tree are those at its leaves. -/
theorem mem_ruleRefs_iff {e : Expression} {k : VersionedId} : k ∈ e.ruleRefs ↔ k ∈ e.leaves := by
  rw [ruleRefs, mem_collectRefs]
  simp

theorem foldl_addRef (keys : List VersionedId) : keys.foldl addRef [] = keys.eraseDups := by
  induction keys using List.reverseRecOn with
  | nil => rfl
  | append_singleton keys k ih =>
    rw [List.foldl_concat, ih, addRef, eraseDups_concat]
    simp only [List.mem_eraseDups]

/-- The references of a tree stand in the order in which its leaves first name them. -/
theorem listsFirst_ruleRefs (e : Expression) : ListsFirst e.leaves e.ruleRefs := by
  rw [ruleRefs, collectRefs_eq_foldl, foldl_addRef]
  exact listsFirst_eraseDups e.leaves

end Expression

namespace Payload

/-- The artifacts that an evaluation of the payload asks for. -/
def references : Payload → List Reference
  | evidenceType _ => []
  | rule _ => []
  | ruleset r => r.root.leaves.map fun key => key.withKind .rule
  | task t => [t.ruleset.withKind .ruleset]
  | challenge c => c.tasks.map fun key => key.withKind .task

/-- Equal payloads refer to the same artifacts. -/
theorem references_of_same {p q : Payload} (h : p.same q = true) : q.references = p.references := by
  cases p <;> cases q <;> simp_all [same, references]

theorem eq_rule_of_same {p : Payload} {r : Rule} (h : p.same (.rule r) = true) : p = .rule r := by
  cases p <;> simp_all [same]

theorem eq_ruleset_of_same {p : Payload} {r : Ruleset} (h : p.same (.ruleset r) = true) :
    p = .ruleset r := by
  cases p <;> simp_all [same]

theorem eq_challenge_of_same {p : Payload} {c : Challenge} (h : p.same (.challenge c) = true) :
    p = .challenge c := by
  cases p <;> simp_all [same]

theorem eq_of_rule_same {p : Payload} {r : Rule} (h : (rule r).same p = true) : p = .rule r := by
  cases p <;> simp_all [same]

end Payload
end Verdict
