import Verdict.Proofs.Compilation.Reference
import Verdict.Proofs.Json.Induction

/-!
# What an expression compiles to

A node of an expression is a reference to a rule, whatever else it holds, or it joins the nodes in
its operands. The tree it compiles to has the references of these nodes at its leaves.
-/

namespace Verdict

open Results

namespace Json

/-- The members of a node that joins the items of an array. -/
structure Joins (members : List (String × Json)) (operator : Connective) (items : List Json) :
    Prop where
  no_ruleRef : Json.lookup "ruleRef" members = none
  operator_eq : ∃ name, Json.lookup "operator" members = some (.str name) ∧
    Connective.ofName? name = some operator
  operands_eq : Json.lookup "operands" members = some (.arr items)

/-- A reference to a rule, with the version beside it, that stands in a node or in one below it. -/
inductive HoldsRuleRef : Json → Json → Option Json → Prop
  | here {members : List (String × Json)} {reference : Json} :
      Json.lookup "ruleRef" members = some reference →
      HoldsRuleRef (.obj members) reference (Json.lookup "version" members)
  | inside {members : List (String × Json)} {operator : Connective} {items : List Json}
      {item reference : Json} {beside : Option Json} : Joins members operator items → item ∈ items →
      HoldsRuleRef item reference beside → HoldsRuleRef (.obj members) reference beside

theorem Joins.items_eq {members : List (String × Json)} {o o' : Connective}
    {items items' : List Json} (h : Joins members o items) (h' : Joins members o' items') :
    items = items' := by
  have heq := h.operands_eq.symm.trans h'.operands_eq
  cases heq
  rfl

/-- The operands of a node are smaller than the node. -/
theorem Joins.sizeOf_lt {members : List (String × Json)} {operator : Connective}
    {items : List Json} (h : Joins members operator items) {item : Json} (hitem : item ∈ items) :
    sizeOf item < sizeOf (Json.obj members) :=
  (sizeOf_lt_arr hitem).trans (sizeOf_lt_obj (mem_of_lookup h.operands_eq))

/-- A property of all nodes follows if it passes from the operands of a node to the node. -/
theorem induct_nodes {P : Json → Prop}
    (h : ∀ j, (∀ {members : List (String × Json)} {operator : Connective} {items : List Json},
      j = .obj members → Joins members operator items → ∀ item ∈ items, P item) → P j) (j : Json) :
    P j :=
  h j fun heq hjoins item hitem =>
    have : sizeOf item < sizeOf j := heq ▸ hjoins.sizeOf_lt hitem
    induct_nodes h item
termination_by sizeOf j

/-- A node with a reference holds this reference alone. -/
theorem holdsRuleRef_of_ruleRef {members : List (String × Json)} {reference : Json}
    (h : Json.lookup "ruleRef" members = some reference) {r : Json} {beside : Option Json} :
    (Json.obj members).HoldsRuleRef r beside ↔
      r = reference ∧ beside = Json.lookup "version" members := by
  constructor
  · intro hr
    cases hr with
    | here hl =>
      cases hl.symm.trans h
      exact ⟨rfl, rfl⟩
    | inside hjoins _ _ => cases h.symm.trans hjoins.no_ruleRef
  · rintro ⟨rfl, rfl⟩
    exact .here h

/-- A node that joins others holds what they hold. -/
theorem Joins.holdsRuleRef_iff {members : List (String × Json)} {operator : Connective}
    {items : List Json} (h : Joins members operator items) {r : Json} {beside : Option Json} :
    (Json.obj members).HoldsRuleRef r beside ↔ ∃ item ∈ items, item.HoldsRuleRef r beside := by
  constructor
  · intro hr
    cases hr with
    | here hl => cases h.no_ruleRef.symm.trans hl
    | inside hjoins hitem hr => exact ⟨_, h.items_eq hjoins ▸ hitem, hr⟩
  · rintro ⟨item, hitem, hr⟩
    exact .inside h hitem hr

end Json

theorem Expression.leavesOfAll_eq_flatMap (es : List Expression) :
    leavesOfAll es = es.flatMap leaves := by
  induction es with
  | nil => rfl
  | cons e es ih => rw [leavesOfAll, ih, List.flatMap_cons]

section Node

variable {id : String}

theorem compileNodes_eq_ok_iff {items : List Json} {es : List Expression} :
    compileNodes id items = .ok es ↔
      List.Forall₂ (fun item e => compileNode id item = .ok e) items es := by
  have hmap : compileNodes id items = items.mapM (compileNode id) := by
    induction items with
    | nil => rfl
    | cons item items ih => rw [compileNodes, List.mapM_cons, ih]
  rw [hmap, mapM_eq_ok_iff]

theorem compileOperands_eq (members : List (String × Json)) :
    compileOperands id members = (Json.lookup "operands" members).bind (compileItems id) := by
  induction members with
  | nil => rw [compileOperands, Json.lookup, Option.bind_none]
  | cons m members ih =>
    obtain ⟨key, value⟩ := m
    rw [compileOperands, Json.lookup]
    split_ifs
    · rfl
    · exact ih

theorem compileNode_of_ruleRef {members : List (String × Json)} {reference : Json}
    (h : Json.lookup "ruleRef" members = some reference) {e : Expression} :
    compileNode id (.obj members) = .ok e ↔
      ∃ v, reference.RefersToRule (Json.lookup "version" members) v ∧ e = .ruleRef v := by
  rw [compileNode, h]
  exact ruleRef_eq_ok_iff

theorem compileNode_of_joins {members : List (String × Json)} {operator : Connective}
    {items : List Json} (h : Json.Joins members operator items) {e : Expression} :
    compileNode id (.obj members) = .ok e ↔ items ≠ [] ∧
      ∃ es, List.Forall₂ (fun item e => compileNode id item = .ok e) items es ∧
        e = .logical operator es := by
  obtain ⟨name, hname, hoperator⟩ := h.operator_eq
  rw [compileNode, h.no_ruleRef]
  simp only [hname, Option.bind_some, Json.asString?, hoperator, compileOperands_eq, h.operands_eq]
  cases items with
  | nil => simp [compileItems, expressionFault]
  | cons item items =>
    simp only [compileItems, map_eq_ok_iff, compileNodes_eq_ok_iff, ne_eq, reduceCtorEq,
      not_false_eq_true, true_and, @eq_comm _ e]

/-- A node without a reference compiles only if it joins others. -/
theorem exists_joins_of_compileNode {members : List (String × Json)}
    (hnone : Json.lookup "ruleRef" members = none) {e : Expression}
    (h : compileNode id (.obj members) = .ok e) :
    ∃ operator items, Json.Joins members operator items := by
  rw [compileNode, hnone] at h
  dsimp only at h
  split at h
  case h_1 => cases h
  case h_2 name hname =>
    split at h
    case h_1 => cases h
    case h_2 operator hoperator =>
      split at h
      case h_1 => cases h
      case h_2 operands hoperands =>
        rw [compileOperands_eq] at hoperands
        obtain ⟨value, hvalue, hitems⟩ := Option.bind_eq_some_iff.mp hoperands
        cases value with
        | arr items =>
          exact ⟨operator, items, hnone,
            ⟨name, Json.bind_asString?_eq_some_iff.mp hname, hoperator⟩, hvalue⟩
        | _ => cases hitems

/-- Whatever is no object is no node. -/
theorem exists_obj_of_compileNode {j : Json} {e : Expression} (h : compileNode id j = .ok e) :
    ∃ members, j = .obj members := by
  cases j with
  | obj members => exact ⟨members, rfl⟩
  | _ =>
    rw [compileNode] at h
    · cases h
    · simp

/-- Whatever compiles refers to a rule or joins nodes that compile. -/
theorem compileNode_induct {P : Json → Expression → Prop}
    (ruleRef : ∀ {members : List (String × Json)} {reference : Json} {v : VersionedId},
      Json.lookup "ruleRef" members = some reference →
      reference.RefersToRule (Json.lookup "version" members) v → P (.obj members) (.ruleRef v))
    (logical : ∀ {members : List (String × Json)} {operator : Connective} {items : List Json}
      {es : List Expression}, Json.Joins members operator items → items ≠ [] →
      List.Forall₂ P items es → P (.obj members) (.logical operator es))
    {j : Json} {e : Expression} (h : compileNode id j = .ok e) : P j e := by
  induction j using Json.induct_nodes generalizing e with
  | h j ih =>
    obtain ⟨members, rfl⟩ := exists_obj_of_compileNode h
    cases hl : Json.lookup "ruleRef" members with
    | some reference =>
      obtain ⟨v, hv, rfl⟩ := (compileNode_of_ruleRef hl).mp h
      exact ruleRef hl hv
    | none =>
      obtain ⟨operator, items, hjoins⟩ := exists_joins_of_compileNode hl h
      obtain ⟨hne, es, hes, rfl⟩ := (compileNode_of_joins hjoins).mp h
      exact logical hjoins hne (forall₂_imp_left (fun item hitem _ => ih rfl hjoins item hitem) hes)

/-- The rules at the leaves are those that the nodes refer to. -/
theorem refersToRule_of_mem_leaves {j : Json} {e : Expression} (h : compileNode id j = .ok e) :
    ∀ k ∈ e.leaves, ∃ reference beside, j.HoldsRuleRef reference beside ∧
      reference.RefersToRule beside k := by
  refine compileNode_induct (P := fun j e => ∀ k ∈ e.leaves, ∃ reference beside,
    j.HoldsRuleRef reference beside ∧ reference.RefersToRule beside k) ?ruleRef ?logical h
  case ruleRef =>
    intro members reference v hl hrefers k hk
    rw [Expression.leaves, List.mem_singleton] at hk
    exact ⟨_, _, .here hl, hk ▸ hrefers⟩
  case logical =>
    intro members operator items es hjoins _ hitems k hk
    rw [Expression.leaves, Expression.leavesOfAll_eq_flatMap] at hk
    obtain ⟨e, he, hk⟩ := List.mem_flatMap.mp hk
    obtain ⟨item, hitem, hleaves⟩ := exists_of_forall₂ hitems he
    obtain ⟨reference, beside, hholds, hrefers⟩ := hleaves k hk
    exact ⟨reference, beside, .inside hjoins hitem hholds, hrefers⟩

end Node

end Verdict
