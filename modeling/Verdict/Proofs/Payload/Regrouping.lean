import Verdict.Proofs.Payload.References

/-!
# References of regrouped trees

Operands that stand next to each other may be put into a node of their own, and a node may be opened
where it stands, without a change of the order of the leaves. The trees that come from each other in
this way are those with the same leaves, and they list the same references.
-/

namespace Verdict

namespace Expression

variable {e e' : Expression}

/-- One tree comes from another by putting neighbouring operands into a node of their own, or a whole
tree into a new node, and by opening nodes again, at any number of places. The nodes may be of any
operator. -/
inductive Regrouped : Expression → Expression → Prop
  | refl (e : Expression) : Regrouped e e
  | symm {e e' : Expression} : Regrouped e e' → Regrouped e' e
  | trans {e e' e'' : Expression} : Regrouped e e' → Regrouped e' e'' → Regrouped e e''
  | grouped {operator inner : Connective} {before es after : List Expression} :
      Regrouped (logical operator (before ++ (es ++ after)))
        (logical operator (before ++ logical inner es :: after))
  | wrapped (operator : Connective) (e : Expression) : Regrouped e (logical operator [e])
  | inside {operator : Connective} {before after : List Expression} {e e' : Expression} :
      Regrouped e e' →
      Regrouped (logical operator (before ++ e :: after)) (logical operator (before ++ e' :: after))

theorem leavesOfAll_append (es es' : List Expression) :
    leavesOfAll (es ++ es') = leavesOfAll es ++ leavesOfAll es' := by
  induction es with
  | nil => rfl
  | cons e es ih => rw [List.cons_append, leavesOfAll, leavesOfAll, ih, List.append_assoc]

/-- The leaves keep their order. -/
theorem Regrouped.leaves_eq (h : Regrouped e e') : e.leaves = e'.leaves := by
  induction h with
  | refl => rfl
  | symm _ ih => exact ih.symm
  | trans _ _ ih ih' => exact ih.trans ih'
  | grouped => simp only [leaves, leavesOfAll_append, leavesOfAll]
  | wrapped operator e => simp only [leaves, leavesOfAll, List.append_nil]
  | inside _ ih => simp only [leaves, leavesOfAll_append, leavesOfAll, ih]

/-- A node with an operator has the same operands with another one. -/
theorem Regrouped.of_operator (operator operator' : Connective) (es : List Expression) :
    Regrouped (logical operator es) (logical operator' es) := by
  have hgrouped : Regrouped (logical operator' ([] ++ (es ++ [])))
      (logical operator' ([] ++ [logical operator es])) := .grouped
  rw [List.nil_append, List.nil_append, List.append_nil] at hgrouped
  exact (wrapped operator' _).trans hgrouped.symm

mutual
/-- Every tree is a grouping of its leaves. -/
theorem regrouped_leaves : ∀ e : Expression,
    Regrouped e (logical .and (e.leaves.map ruleRef))
  | .ruleRef r => .wrapped .and (ruleRef r)
  | .logical operator es =>
    (regrouped_operands operator [] es).trans (.of_operator operator .and _)

/-- The operands of a node may be replaced by their leaves. -/
theorem regrouped_operands (operator : Connective) (before : List Expression) :
    ∀ es : List Expression, Regrouped (logical operator (before ++ es))
      (logical operator (before ++ (leavesOfAll es).map ruleRef))
  | [] => .refl _
  | e :: es => by
    have hfirst : Regrouped (logical operator (before ++ e :: es))
        (logical operator (before ++ (e.leaves.map ruleRef ++ es))) :=
      (Regrouped.inside (regrouped_leaves e)).trans Regrouped.grouped.symm
    have hrest := regrouped_operands operator (before ++ e.leaves.map ruleRef) es
    rw [List.append_assoc, List.append_assoc, ← List.map_append] at hrest
    exact hfirst.trans hrest
end

/-- Trees with the same leaves are groupings of each other. -/
theorem regrouped_iff : Regrouped e e' ↔ e.leaves = e'.leaves := by
  refine ⟨Regrouped.leaves_eq, fun h => ?_⟩
  have hleaves := regrouped_leaves e
  rw [h] at hleaves
  exact hleaves.trans (regrouped_leaves e').symm

/-- The references of a tree are the different ones among its leaves, in the order in which they
first occur from left to right. They are the same for all groupings of the leaves, which are all
trees with these leaves. -/
theorem ruleRefs_exact (e : Expression) :
    ListsFirst e.leaves e.ruleRefs ∧
      ∀ e', (Regrouped e e' ↔ e.leaves = e'.leaves) ∧
        (Regrouped e e' → e'.ruleRefs = e.ruleRefs) := by
  refine ⟨listsFirst_ruleRefs e, fun e' => ⟨regrouped_iff, fun h => ?_⟩⟩
  have hlists := listsFirst_ruleRefs e'
  rw [← h.leaves_eq] at hlists
  exact hlists.eq (listsFirst_ruleRefs e)

/-- Two rules, of which one is named twice and in two versions, in two groupings. -/
theorem ruleRefs_exact_twoVersions :
    let nested : Expression := .logical .or [.ruleRef ⟨"r2", 1⟩,
      .logical .and [.ruleRef ⟨"r1", 1⟩, .ruleRef ⟨"r2", 1⟩], .ruleRef ⟨"r2", 2⟩]
    let regrouped : Expression := .logical .and [.logical .or [.ruleRef ⟨"r2", 1⟩,
      .ruleRef ⟨"r1", 1⟩], .logical .and [], .ruleRef ⟨"r2", 1⟩, .logical .or [.ruleRef ⟨"r2", 2⟩]]
    Regrouped nested regrouped ∧ regrouped.ruleRefs = nested.ruleRefs ∧
      nested.ruleRefs = [⟨"r2", 1⟩, ⟨"r1", 1⟩, ⟨"r2", 2⟩] := by
  intro nested regrouped
  obtain ⟨hiff, hsame⟩ := (ruleRefs_exact nested).2 regrouped
  have hregrouped : Regrouped nested regrouped := hiff.mpr rfl
  exact ⟨hregrouped, hsame hregrouped, rfl⟩

end Expression
end Verdict
