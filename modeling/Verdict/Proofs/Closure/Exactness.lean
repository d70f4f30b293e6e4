import Verdict.Proofs.Closure.Search

/-!
# Closures are exact

The outcome of a root holds what the root reaches through registered artifacts, each once and as the
context resolves it, and reports what is asked for and not registered, each once. It is a success
exactly if every dependency met on the way is registered.
-/

namespace Verdict

namespace Outcome

/-- An outcome is the closure of a root in a context. -/
structure IsClosure (c : Context) (root : Reference) (o : Outcome) : Prop where
  contains_iff : ∀ r, o.contains r = true ↔ c.symbols.Reaches root r
  resolve_eq : ∀ r a, o.find? r = some a → c.resolve r = .ok a
  reached_nodup : (o.reached.map Artifact.reference).Nodup
  errors_eq : ∃ missing : List Reference, o.errors = missing.map .missingDependency ∧
    missing.Nodup ∧ ∀ r, r ∈ missing ↔
      c.contains r = false ∧ (r = root ∨ ∃ a ∈ o.reached, r ∈ a.dependencies)

theorem contains_iff_mem (o : Outcome) (r : Reference) :
    o.contains r = true ↔ r ∈ o.reached.map Artifact.reference := by
  simp [contains, find?]

theorem reference_of_find? {o : Outcome} {r : Reference} {a : Artifact} (h : o.find? r = some a) :
    a ∈ o.reached ∧ a.reference = r :=
  ⟨List.mem_of_find?_eq_some h, by simpa using List.find?_some h⟩

/-- Under distinct references, what is reached is found. -/
theorem find?_of_mem {o : Outcome} (h : (o.reached.map Artifact.reference).Nodup) {a : Artifact}
    (ha : a ∈ o.reached) : o.find? a.reference = some a := by
  cases hf : o.find? a.reference with
  | none =>
    have := (o.contains_iff_mem a.reference).mpr (List.mem_map.mpr ⟨a, ha, rfl⟩)
    simp [contains, hf] at this
  | some b =>
    obtain ⟨hb, hr⟩ := reference_of_find? hf
    rw [List.inj_on_of_nodup_map h hb ha hr]

/-- What is reached stands in the context. -/
theorem IsClosure.resolve_of_mem {c : Context} {root : Reference} {o : Outcome}
    (h : o.IsClosure c root) {a : Artifact} (ha : a ∈ o.reached) : c.resolve a.reference = .ok a :=
  h.resolve_eq _ a (find?_of_mem h.reached_nodup ha)

/-- The search that the outcome of a frozen context is read off. -/
def finished (c : Context) (root : Reference) : Search :=
  (Search.start root).run c.symbols (Search.bound c.symbols)

theorem ofRoot_of_frozen {c : Context} (h : c.phase = .frozen) (root : Reference) :
    ofRoot c root =
      ⟨root, (finished c root).reached, (finished c root).missing.map .missingDependency⟩ := by
  simp [ofRoot, h, finished]

theorem valid_finished {c : Context} (assembled : c.Assembled) (root : Reference) :
    (finished c root).Valid c.symbols root :=
  (Search.valid_start c.symbols root).run assembled.indexed _

/-- When the queue is empty, what was asked for is reached or missing. -/
theorem demands_finished_iff {c : Context} (assembled : c.Assembled) (root r : Reference) :
    (finished c root).Demands root r ↔
      r ∈ (finished c root).reached.map Artifact.reference ∨ r ∈ (finished c root).missing := by
  have hv := valid_finished assembled root
  have hq : (finished c root).queue = [] := Search.queue_run_bound assembled.indexed
  rw [hv.demands_iff, hq, ← hv.visited_iff]
  simp

theorem mem_reached_iff {c : Context} (assembled : c.Assembled) (root r : Reference) :
    r ∈ (finished c root).reached.map Artifact.reference ↔ c.symbols.Reaches root r := by
  have hv := valid_finished assembled root
  constructor
  · intro hr
    obtain ⟨a, ha, rfl⟩ := List.mem_map.mp hr
    exact hv.reaches a ha
  -- a registered reference that is asked for cannot be among the missing ones
  have registered : ∀ {d}, c.symbols.contains d = true → (finished c root).Demands root d →
      d ∈ (finished c root).reached.map Artifact.reference := by
    intro d hd hdem
    refine ((demands_finished_iff assembled root d).mp hdem).resolve_right fun hm => ?_
    simp [Table.contains, hv.unregistered d hm] at hd
  intro h
  induction h with
  | root h => exact registered h (.inl rfl)
  | @step r d a hr hf hd hc ih =>
    obtain ⟨b, hb, rfl⟩ := List.mem_map.mp ih
    have : b = a := Option.some.inj ((hv.find?_reached b hb).symm.trans hf)
    exact registered hc (.inr ⟨b, hb, this ▸ hd⟩)

theorem mem_missing_iff {c : Context} (assembled : c.Assembled) (root r : Reference) :
    r ∈ (finished c root).missing ↔
      c.contains r = false ∧ (finished c root).Demands root r := by
  have hv := valid_finished assembled root
  rw [demands_finished_iff assembled]
  constructor
  · intro h
    exact ⟨by simp [Context.contains, Table.contains, hv.unregistered r h], .inr h⟩
  · rintro ⟨hc, h⟩
    refine h.resolve_left fun hr => ?_
    have := ((mem_reached_iff assembled root r).mp hr).contains
    simp [Context.contains, this] at hc

theorem isClosure_ofRoot {c : Context} (assembled : c.Assembled) (frozen : c.phase = .frozen)
    (root : Reference) : (ofRoot c root).IsClosure c root := by
  have hv := valid_finished assembled root
  rw [ofRoot_of_frozen frozen]
  constructor
  case contains_iff =>
    intro r
    rw [contains_iff_mem, mem_reached_iff assembled]
  case resolve_eq =>
    intro r a h
    obtain ⟨ha, rfl⟩ := reference_of_find? h
    rw [Context.resolve_eq_ok_iff, hv.find?_reached a ha]
  case reached_nodup => exact hv.reached_nodup
  case errors_eq => exact ⟨_, rfl, hv.missing_nodup, fun r => mem_missing_iff assembled root r⟩

/-- A closure has an error exactly if something asked for is not registered. -/
theorem IsClosure.isSuccess_iff {c : Context} {root : Reference} {o : Outcome}
    (h : o.IsClosure c root) :
    o.isSuccess = true ↔ ∀ r, r = root ∨ (∃ a ∈ o.reached, r ∈ a.dependencies) →
      c.contains r = true := by
  obtain ⟨missing, he, -, hm⟩ := h.errors_eq
  rw [isSuccess, he, List.isEmpty_iff, List.map_eq_nil_iff, List.eq_nil_iff_forall_not_mem]
  simp only [hm]
  refine forall_congr' fun r => ?_
  cases c.contains r <;> simp

/-- Nothing is reached in a context that is not frozen. -/
theorem frozen_of_isSuccess {c : Context} {root : Reference}
    (success : (ofRoot c root).isSuccess = true) : c.phase = .frozen := by
  unfold ofRoot at success
  split at success
  case h_1 => cases success
  case h_2 hphase => exact hphase

/-- A closure without errors has its root in it. -/
theorem exists_root {c : Context} (assembled : c.Assembled) {root : Reference}
    (success : (ofRoot c root).isSuccess = true) : ∃ a, (ofRoot c root).find? root = some a := by
  have closure := isClosure_ofRoot assembled (frozen_of_isSuccess success) root
  rw [← Option.isSome_iff_exists]
  exact (closure.contains_iff root).mpr (.root (closure.isSuccess_iff.mp success root (.inl rfl)))

/-- Without its root a closure is empty, and the root is what is missing. -/
theorem IsClosure.of_root_missing {c : Context} {root : Reference} {o : Outcome}
    (h : o.IsClosure c root) (hr : c.contains root = false) :
    o.reached = [] ∧ o.errors = [.missingDependency root] := by
  have hreached : o.reached = [] := by
    rw [List.eq_nil_iff_forall_not_mem]
    intro a ha
    have hc := (o.contains_iff_mem a.reference).mpr (List.mem_map.mpr ⟨a, ha, rfl⟩)
    have : c.symbols.contains root = true := by
      generalize a.reference = r at hc
      induction (h.contains_iff r).mp hc with
      | root h => exact h
      | step _ _ _ _ ih => exact ih ((h.contains_iff _).mpr ‹_›)
    simp [Context.contains, this] at hr
  obtain ⟨missing, he, hn, hm⟩ := h.errors_eq
  have hmem : ∀ r, r ∈ missing ↔ r = root := by
    intro r
    rw [hm, hreached]
    constructor
    · rintro ⟨-, hd⟩
      simpa using hd
    · rintro rfl
      exact ⟨hr, .inl rfl⟩
  have hone : missing = [root] := by
    rw [← List.perm_singleton]
    exact (List.perm_ext_iff_of_nodup hn (List.nodup_singleton _)).mpr fun r => by simp [hmem]
  exact ⟨hreached, by rw [he, hone, List.map_singleton]⟩

theorem IsClosure.isSuccess_iff_closed {c : Context} {root : Reference} {o : Outcome}
    (h : o.IsClosure c root) :
    o.isSuccess = true ↔ c.contains root = true ∧ ∀ r a, c.symbols.Reaches root r →
      c.resolve r = .ok a → ∀ d ∈ a.dependencies, c.contains d = true := by
  rw [h.isSuccess_iff]
  constructor
  · intro hall
    refine ⟨hall root (.inl rfl), ?_⟩
    intro r a hr ha d hd
    obtain ⟨b, hb⟩ := Option.isSome_iff_exists.mp ((h.contains_iff r).mpr hr)
    have : b = a := Except.ok.inj ((h.resolve_eq r b hb).symm.trans ha)
    exact hall d (.inr ⟨b, (reference_of_find? hb).1, this ▸ hd⟩)
  · rintro ⟨hroot, hall⟩ r (rfl | ⟨a, ha, hd⟩)
    · exact hroot
    · refine hall a.reference a ?_ (h.resolve_of_mem ha) r hd
      rw [← h.contains_iff, contains_iff_mem]
      exact List.mem_map.mpr ⟨a, ha, rfl⟩

/-- In a closure without errors every dependency is reached. -/
theorem IsClosure.exists_dependency {c : Context} {root : Reference} {o : Outcome}
    (h : o.IsClosure c root) (success : o.isSuccess = true) {a : Artifact} (ha : a ∈ o.reached)
    {r : Reference} (hr : r ∈ a.dependencies) : ∃ b ∈ o.reached, b.reference = r := by
  have hreaches : c.symbols.Reaches root a.reference := by
    rw [← h.contains_iff, contains_iff_mem]
    exact List.mem_map.mpr ⟨a, ha, rfl⟩
  have hreg := h.isSuccess_iff.mp success r (.inr ⟨a, ha, hr⟩)
  have hfind := Context.resolve_eq_ok_iff.mp (h.resolve_of_mem ha)
  have hnext := hreaches.step hfind hr hreg
  rw [← h.contains_iff, contains_iff_mem] at hnext
  exact List.mem_map.mp hnext

/-- The outcome of a root in a frozen context is its closure. Without the root nothing is reached
and one error says so, and there is no error exactly if the registered artifacts are closed under
dependencies from the root. -/
theorem ofRoot_exact {c : Context} (assembled : c.Assembled) (frozen : c.phase = .frozen)
    (root : Reference) :
    (ofRoot c root).IsClosure c root ∧
      (c.contains root = false →
        (ofRoot c root).reached = [] ∧ (ofRoot c root).errors = [.missingDependency root]) ∧
      ((ofRoot c root).isSuccess = true ↔ c.contains root = true ∧
        ∀ r a, c.symbols.Reaches root r → c.resolve r = .ok a →
          ∀ d ∈ a.dependencies, c.contains d = true) :=
  have h := isClosure_ofRoot assembled frozen root
  ⟨h, h.of_root_missing, h.isSuccess_iff_closed⟩

/-- Two tasks that depend on each other, and one of them on a ruleset that is not registered. -/
def cyclicTasks : List Artifact :=
  let task (id : String) (dependencies : List Reference) : Artifact :=
    ⟨id, 1, ⟨"", 0, ""⟩, dependencies, .task ⟨⟨"rs", 1⟩, .boolean, [], ""⟩⟩
  [task "a" [⟨.task, "b", 1⟩, ⟨.ruleset, "rs", 1⟩, ⟨.task, "b", 1⟩], task "b" [⟨.task, "a", 1⟩]]

theorem ofRoot_exact_cyclicTasks :
    let c : Context := ⟨Registry.ofArtifacts cyclicTasks, .frozen⟩
    let o := ofRoot c ⟨.task, "a", 1⟩
    c.Assembled ∧ c.phase = .frozen ∧ o.IsClosure c ⟨.task, "a", 1⟩ ∧
      o.reached.map (·.id) = ["a", "b"] ∧ o.errors.length = 1 ∧ o.isSuccess = false :=
  have assembled := Context.assembled_ofArtifacts cyclicTasks .frozen
  ⟨assembled, rfl, (ofRoot_exact assembled rfl _).1, by decide, by decide, by decide⟩

end Outcome
end Verdict
