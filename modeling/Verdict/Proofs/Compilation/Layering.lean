import Mathlib
import Verdict.Proofs.Closure.Exactness
import Verdict.Proofs.Compilation.Library
import Verdict.Proofs.Payload.References

/-!
# Layers of artifacts

Whatever is compiled depends on artifacts of the kind right before its own, so no chain of
dependencies comes back to where it began. A challenge is registered only after its tasks, which
then stay registered. So between the root of a closure and the rulesets nothing is missing.
-/

namespace Verdict

open Results

namespace Kind

/-- One kind stands right before another in compilation order. -/
def Precedes (k k' : Kind) : Prop := [k, k'] <:+: all

instance (k k' : Kind) : Decidable (k.Precedes k') := inferInstanceAs (Decidable (_ <:+: _))

theorem Precedes.order_lt {k k' : Kind} (h : k.Precedes k') : k.order < k'.order := by
  revert h
  cases k <;> cases k' <;> decide

theorem not_precedes_evidenceType (k : Kind) : ¬k.Precedes .evidenceType := by
  cases k <;> decide

/-- Whatever stands before a kind other than a challenge is no task. -/
theorem Precedes.below_task {k k' : Kind} (h : k.Precedes k') (hk' : k' ≠ .challenge) :
    k = .ruleset ∨ k = .rule ∨ k = .evidenceType := by
  revert h hk'
  cases k <;> cases k' <;> decide

end Kind

/-! ## One artifact -/

/-- An artifact has an identity that artifacts can have, and so have its dependencies, which are of
the kind right before its own. -/
structure Artifact.Layered (a : Artifact) : Prop where
  wellFormed : a.reference.versionedId.WellFormed
  dependency_wellFormed : ∀ r ∈ a.dependencies, r.versionedId.WellFormed
  precedes : ∀ r ∈ a.dependencies, r.kind.Precedes a.kind

theorem Artifact.Layered.dependencies_eq_nil {a : Artifact} (h : a.Layered)
    (hkind : a.kind = .evidenceType) : a.dependencies = [] := by
  rw [List.eq_nil_iff_forall_not_mem]
  intro r hr
  exact Kind.not_precedes_evidenceType r.kind (hkind ▸ h.precedes r hr)

theorem Document.wellFormed_of_ofJson {kind : Kind} {source : Json} {d : Document}
    (h : ofJson kind source = .ok d) : VersionedId.WellFormed ⟨d.id, d.version⟩ := by
  obtain ⟨-, hid, hversion, -⟩ := ofJson_eq_ok_iff.mp h
  obtain ⟨j, -, hj⟩ := Option.bind_eq_some_iff.mp hversion
  exact ⟨hid, (SourceUnit.version?_eq_some_iff.mp hj).2⟩

namespace Compilation

/-- The rules of a ruleset are referred to as they should. -/
theorem wellFormed_of_ruleset {d : Document} {c : Compiled} (h : ruleset d = .ok c) :
    ∃ root : Expression, c = ⟨.ruleset ⟨root⟩, root.ruleRefs.map fun r => r.withKind .rule⟩ ∧
      ∀ v ∈ root.leaves, v.WellFormed := by
  obtain ⟨root, hroot, rfl⟩ := ruleset_eq_ok_iff.mp h
  refine ⟨root, rfl, fun v hv => ?_⟩
  rcases hroot with ⟨e, -, hnode⟩ | ⟨-, reference, r, -, hrefers, rfl⟩
  · obtain ⟨reference, beside, -, hrefers⟩ := refersToRule_of_mem_leaves hnode v hv
    exact hrefers.wellFormed
  · rw [Expression.leaves, List.mem_singleton] at hv
    exact hv ▸ hrefers.wellFormed

/-- The dependencies of what is compiled, one case per kind. -/
theorem dependency_of_body {kind : Kind} {registered : Registry} {d : Document} {c : Compiled}
    (h : body kind registered d = .ok c) {r : Reference} (hr : r ∈ c.dependencies) :
    r.versionedId.WellFormed ∧ r.kind.Precedes kind := by
  cases kind with
  | evidenceType =>
    obtain ⟨-, fields, -, -, rfl⟩ := evidenceType_eq_ok_iff.mp h
    cases hr
  | rule =>
    obtain ⟨body, e, -, -, -, -, he, rfl⟩ := rule_eq_ok_iff.mp h
    obtain ⟨v, hv, rfl⟩ := List.mem_map.mp hr
    rw [Option.mem_toList] at hv
    cases hv
    generalize Json.lookup "evidenceTypeRef" d.spec = reference at he
    cases he with
    | some hrefers => exact ⟨hrefers.wellFormed, (by decide : Kind.Precedes .evidenceType .rule)⟩
  | ruleset =>
    obtain ⟨root, rfl, hleaves⟩ := wellFormed_of_ruleset h
    obtain ⟨v, hv, rfl⟩ := List.mem_map.mp hr
    exact ⟨hleaves v (Expression.mem_ruleRefs_iff.mp hv),
      (by decide : Kind.Precedes .rule .ruleset)⟩
  | task =>
    obtain ⟨t, ⟨reference, -, hrefers⟩, -, -, -, rfl⟩ := task_eq_ok_iff.mp h
    cases List.mem_singleton.mp hr
    exact ⟨hrefers.wellFormed, (by decide : Kind.Precedes .ruleset .task)⟩
  | challenge =>
    obtain ⟨tasks, ⟨entries, -, hentries⟩, -, rfl⟩ := challenge_eq_ok_iff.mp h
    obtain ⟨t, ht, rfl⟩ := List.mem_map.mp hr
    obtain ⟨entry, -, hread⟩ := exists_of_forall₂ hentries ht
    obtain ⟨reference, -, hrefers⟩ := versionedRef_eq_ok_iff.mp hread
    exact ⟨hrefers.wellFormed, (by decide : Kind.Precedes .task .challenge)⟩

end Compilation

section Compile

variable {kind : Kind} {registered : Registry} {builtAt : UInt64} {source : Json} {a : Artifact}

theorem layered_of_compile (h : compile kind registered builtAt source = .ok a) : a.Layered := by
  obtain ⟨d, c, hd, hc, rfl⟩ := compile_eq_ok_iff.mp h
  have hkind : c.payload.kind = kind := Compilation.body_kind hc
  constructor
  case wellFormed => exact Document.wellFormed_of_ofJson hd
  case dependency_wellFormed => exact fun r hr => (Compilation.dependency_of_body hc hr).1
  case precedes =>
    intro r hr
    rw [Artifact.kind, hkind]
    exact (Compilation.dependency_of_body hc hr).2

/-- The tasks of a challenge are registered when it is compiled. -/
theorem contains_of_compile (h : compile kind registered builtAt source = .ok a)
    (hchallenge : a.kind = .challenge) : ∀ t ∈ a.dependencies, registered.contains t = true := by
  obtain ⟨d, c, -, hc, rfl⟩ := compile_eq_ok_iff.mp h
  obtain rfl : kind = .challenge := (Compilation.body_kind hc).symm.trans hchallenge
  obtain ⟨tasks, -, hregistered, rfl⟩ := Compilation.challenge_eq_ok_iff.mp hc
  intro t ht
  obtain ⟨key, hkey, rfl⟩ := List.mem_map.mp ht
  exact hregistered key hkey

end Compile

/-! ## Registries -/

namespace Registry

/-- Every artifact has its layer, and every challenge its tasks. -/
structure Layered (registered : Registry) : Prop where
  layered : ∀ k a, registered.find? k = some a → a.Layered
  contains_task : ∀ k a, registered.find? k = some a → a.kind = .challenge →
    ∀ t ∈ a.dependencies, registered.contains t = true

theorem layered_empty : Layered Table.empty where
  layered := by simp
  contains_task := by simp

/-- What is registered stays registered, if not as it was. -/
theorem contains_register {registered : Registry} {k : Reference}
    (h : registered.contains k = true) (a : Artifact) :
    (registered.register a).contains k = true := by
  rw [contains_iff] at h ⊢
  obtain ⟨b, hb⟩ := h
  rw [find?_register]
  split_ifs
  · exact ⟨a, rfl⟩
  · exact ⟨b, hb⟩

theorem Layered.register {registered : Registry} (h : registered.Layered) {a : Artifact}
    (ha : a.Layered)
    (htasks : a.kind = .challenge → ∀ t ∈ a.dependencies, registered.contains t = true) :
    (registered.register a).Layered := by
  constructor
  case layered =>
    intro k b hb
    rcases eq_or_find?_of_register hb with ⟨-, rfl⟩ | hb
    · exact ha
    · exact h.layered k b hb
  case contains_task =>
    intro k b hb hchallenge t ht
    apply contains_register
    rcases eq_or_find?_of_register hb with ⟨-, rfl⟩ | hb
    · exact htasks hchallenge t ht
    · exact h.contains_task k b hb hchallenge t ht

end Registry

/-- Whatever a library is, what is registered for it has its layers. -/
theorem LibraryResult.layered_compileLibrary (builtAt : UInt64) (l : Library) :
    (compileLibrary builtAt l .empty).context.symbols.Layered := by
  refine foldl_add_induct (P := fun c => c.symbols.Layered) l.units ?_ _ Registry.layered_empty
  intro c c' u _ a hc ha hregister
  obtain ⟨-, rfl⟩ := Context.register_eq_ok_iff.mp hregister
  exact hc.register (layered_of_compile ha) (contains_of_compile ha)

/-! ## Dependencies -/

namespace Context

/-- What is registered under one reference declares another as a dependency. -/
def DependsOn (c : Context) (r d : Reference) : Prop :=
  ∃ a, c.resolve r = .ok a ∧ d ∈ a.dependencies

variable {c : Context} (assembled : c.Assembled) (layered : c.symbols.Layered)

include assembled layered

theorem DependsOn.order_lt {r d : Reference} (h : c.DependsOn r d) :
    d.kind.order < r.kind.order := by
  obtain ⟨a, ha, hd⟩ := h
  rw [resolve_eq_ok_iff] at ha
  have hlt := ((layered.layered r a ha).precedes d hd).order_lt
  rwa [← assembled.indexed.reference_eq r a ha]

theorem order_lt_of_transGen {r d : Reference} (h : Relation.TransGen c.DependsOn r d) :
    d.kind.order < r.kind.order := by
  induction h with
  | single h => exact h.order_lt assembled layered
  | tail _ h ih => exact (h.order_lt assembled layered).trans ih

/-- No chain of dependencies comes back to where it began. -/
theorem not_transGen_dependsOn (r : Reference) : ¬Relation.TransGen c.DependsOn r r := by
  intro h
  exact lt_irrefl _ (order_lt_of_transGen assembled layered h)

/-- A closure misses its root, or something below a task. -/
theorem kind_of_missingDependency {root r : Reference}
    (h : .missingDependency r ∈ (Outcome.ofRoot c.freeze root).errors) :
    r = root ∨ r.kind = .ruleset ∨ r.kind = .rule ∨ r.kind = .evidenceType := by
  have closure := Outcome.isClosure_ofRoot assembled.freeze rfl root
  obtain ⟨missing, herrors, -, hmissing⟩ := closure.errors_eq
  rw [herrors] at h
  obtain ⟨r', hr', heq⟩ := List.mem_map.mp h
  cases heq
  obtain ⟨hnot, rfl | ⟨a, ha, hr⟩⟩ := (hmissing r).mp hr'
  · exact .inl rfl
  · have hresolve := closure.resolve_of_mem ha
    rw [resolve_eq_ok_iff] at hresolve
    right
    apply ((layered.layered _ a hresolve).precedes r hr).below_task
    -- the dependencies of a challenge are registered, and this one is not
    intro hchallenge
    have hcontains : c.freeze.contains r = true :=
      layered.contains_task _ a hresolve hchallenge r hr
    rw [hcontains] at hnot
    cases hnot

end Context

/-- Whatever library is compiled, its artifacts and their dependencies have identities that
artifacts can have, and each depends on the kind right before its own. So there is no cycle, every
task of a challenge is there, and no closure misses a task or a challenge other than its root. -/
theorem compileLibrary_layered (builtAt : UInt64) (l : Library) :
    let c := (compileLibrary builtAt l .empty).context
    (∀ r a, c.resolve r = .ok a → a.reference = r ∧ a.Layered ∧
      (a.kind = .evidenceType → a.dependencies = []) ∧
      (a.kind = .challenge → ∀ t ∈ a.dependencies, ∃ b, c.resolve t = .ok b)) ∧
    (∀ r, ¬Relation.TransGen c.DependsOn r r) ∧
    ∀ root r, .missingDependency r ∈ (Outcome.ofRoot c.freeze root).errors →
      r = root ∨ r.kind = .ruleset ∨ r.kind = .rule ∨ r.kind = .evidenceType := by
  intro c
  have assembled : c.Assembled := LibraryResult.assembled_compileLibrary builtAt l
  have layered : c.symbols.Layered := LibraryResult.layered_compileLibrary builtAt l
  refine ⟨fun r a ha => ?_, Context.not_transGen_dependsOn assembled layered,
    fun root r => Context.kind_of_missingDependency assembled layered⟩
  rw [Context.resolve_eq_ok_iff] at ha
  have hlayered := layered.layered r a ha
  refine ⟨assembled.indexed.reference_eq r a ha, hlayered, hlayered.dependencies_eq_nil, ?_⟩
  intro hchallenge t ht
  rw [← Context.contains_iff]
  exact layered.contains_task r a ha hchallenge t ht

theorem compileLibrary_layered_twoChallenges :
    let c := (compileLibrary 0 Library.twoChallenges .empty).context
    ∃ a, c.resolve ⟨.challenge, "c", 1⟩ = .ok a ∧ a.Layered ∧
      ∀ t ∈ a.dependencies, ∃ b, c.resolve t = .ok b := by
  intro c
  have hcontains : c.contains ⟨.challenge, "c", 1⟩ = true := by decide
  obtain ⟨a, ha⟩ := Context.contains_iff.mp hcontains
  obtain ⟨href, hlayered, -, htasks⟩ := (compileLibrary_layered 0 Library.twoChallenges).1 _ a ha
  exact ⟨a, ha, hlayered, htasks (congrArg Reference.kind href)⟩

end Verdict
