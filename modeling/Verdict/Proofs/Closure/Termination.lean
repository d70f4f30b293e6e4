import Verdict.Proofs.Closure.Extension

/-!
# The loop of a closure ends

Every iteration takes one reference off the queue, and only an artifact that is reached for the first
time puts references on it. So the loop ends after one iteration for the root and at most one for
every dependency that a reachable artifact declares, however the artifacts depend on each other. A
reference is resolved when it is looked at, and it is looked at once.
-/

namespace Verdict

namespace Registry

open scoped Classical in
/-- The registered artifacts that a root reaches. -/
noncomputable def reachable (registered : Registry) (root : Reference) : List Artifact :=
  registered.values.filter fun a => registered.Reaches root a.reference

theorem mem_reachable_iff {registered : Registry} (indexed : registered.Indexed)
    {root : Reference} {a : Artifact} : a ∈ registered.reachable root ↔
      registered.find? a.reference = some a ∧ registered.Reaches root a.reference := by
  simp only [reachable, List.mem_filter, decide_eq_true_eq, mem_values_iff indexed]

end Registry

namespace Search

variable {registered : Registry} {root : Reference} {s : Search}

/-! ## The loop with what it has done -/

/-- One step, with the references that it resolves. -/
def stepCounted (registered : Registry) (s : Search) : Search × List Reference :=
  match s.queue with
  | [] => (s, [])
  | r :: rest =>
    if r ∈ s.visited then (s.passOver rest, [])
    else
      match registered.find? r with
      | none => (s.miss r rest, [r])
      | some a => (s.expand r rest a, [r])

/-- Where a loop has come to, how often its body was executed, and the references it resolved, in
order and with repetitions. -/
structure Progress where
  final : Search
  iterations : ℕ
  resolved : List Reference

/-- Takes steps until the queue is empty or the fuel is used up. -/
def loop (registered : Registry) : ℕ → Search → Progress
  | 0, s => ⟨s, 0, []⟩
  | fuel + 1, s =>
    if s.queue = [] then ⟨s, 0, []⟩
    else
      let next := s.stepCounted registered
      let later := loop registered fuel next.1
      ⟨later.final, later.iterations + 1, next.2 ++ later.resolved⟩

theorem stepCounted_value (registered : Registry) (s : Search) :
    (s.stepCounted registered).1 = s.step registered := by
  unfold stepCounted
  split
  case h_1 hq => exact (step_of_empty registered hq).symm
  case h_2 r rest hq =>
    split_ifs with hv
    · exact (step_of_visited registered hq hv).symm
    · split
      case h_1 hr => exact (step_of_missing registered hq hv hr).symm
      case h_2 a hr => exact (step_of_found registered hq hv hr).symm

/-- What a step resolves is new, and it has been looked at from then on. -/
theorem stepCounted_resolved (registered : Registry) (s : Search) :
    (s.step registered).visited = (s.stepCounted registered).2.reverse ++ s.visited ∧
      (s.stepCounted registered).2.Nodup ∧ ∀ r ∈ (s.stepCounted registered).2, r ∉ s.visited := by
  rw [← stepCounted_value]
  unfold stepCounted
  split
  · simp
  · split_ifs with hv
    · simp [passOver]
    · split <;> simp [miss, expand, hv]

theorem loop_of_empty (h : s.queue = []) (fuel : ℕ) : s.loop registered fuel = ⟨s, 0, []⟩ := by
  cases fuel with
  | zero => rfl
  | succ fuel => rw [loop, if_pos h]

theorem loop_of_nonempty (h : s.queue ≠ []) (fuel : ℕ) : s.loop registered (fuel + 1) =
    ⟨((s.step registered).loop registered fuel).final,
      ((s.step registered).loop registered fuel).iterations + 1,
      (s.stepCounted registered).2 ++ ((s.step registered).loop registered fuel).resolved⟩ := by
  rw [loop, if_neg h, ← stepCounted_value]

/-- Counting changes nothing. -/
theorem loop_final (registered : Registry) (fuel : ℕ) (s : Search) :
    (s.loop registered fuel).final = s.run registered fuel := by
  induction fuel generalizing s with
  | zero => rfl
  | succ fuel ih =>
    by_cases hq : s.queue = []
    · rw [loop_of_empty hq, run_of_empty hq]
    · rw [loop_of_nonempty hq]
      exact ih _

/-- The loop stops at an empty queue and nowhere else. -/
theorem loop_stops (registered : Registry) (fuel : ℕ) (s : Search) :
    (s.loop registered fuel).final.queue = [] ∨ (s.loop registered fuel).iterations = fuel := by
  induction fuel generalizing s with
  | zero => exact .inr rfl
  | succ fuel ih =>
    by_cases hq : s.queue = []
    · rw [loop_of_empty hq]
      exact .inl hq
    · rw [loop_of_nonempty hq]
      exact (ih _).imp_right (congrArg Nat.succ)

/-- Iterations are paid for by what was queued at first and by what the artifacts reached since then
declare. -/
theorem loop_iterations (registered : Registry) (fuel : ℕ) (s : Search) :
    (s.loop registered fuel).iterations + (s.loop registered fuel).final.queue.length + s.declared ≤
      s.queue.length + (s.loop registered fuel).final.declared := by
  induction fuel generalizing s with
  | zero => simp [loop]
  | succ fuel ih =>
    by_cases hq : s.queue = []
    · simp [loop_of_empty hq]
    · have hstep := length_queue_step registered s hq
      have hlater := ih (s.step registered)
      rw [loop_of_nonempty hq]
      dsimp only
      omega

/-- What has been looked at in the end was looked at before or has been resolved. -/
theorem loop_visited (registered : Registry) (fuel : ℕ) (s : Search) :
    (s.loop registered fuel).final.visited =
      (s.loop registered fuel).resolved.reverse ++ s.visited := by
  induction fuel generalizing s with
  | zero => rfl
  | succ fuel ih =>
    by_cases hq : s.queue = []
    · rw [loop_of_empty hq]
      rfl
    · rw [loop_of_nonempty hq]
      dsimp only
      rw [ih, (stepCounted_resolved registered s).1, List.reverse_append, List.append_assoc]

/-- The loop resolves no reference twice, and none that was looked at before. -/
theorem loop_resolved (registered : Registry) (fuel : ℕ) (s : Search) :
    (s.loop registered fuel).resolved.Nodup ∧
      ∀ r ∈ (s.loop registered fuel).resolved, r ∉ s.visited := by
  induction fuel generalizing s with
  | zero => exact ⟨List.nodup_nil, nofun⟩
  | succ fuel ih =>
    by_cases hq : s.queue = []
    · rw [loop_of_empty hq]
      exact ⟨List.nodup_nil, nofun⟩
    · obtain ⟨hvisited, hnodup, hnew⟩ := stepCounted_resolved registered s
      obtain ⟨hlater, hfresh⟩ := ih (s.step registered)
      simp only [hvisited, List.mem_append, List.mem_reverse, not_or] at hfresh
      rw [loop_of_nonempty hq]
      refine ⟨List.nodup_append.mpr ⟨hnodup, hlater, ?_⟩, List.forall_mem_append.mpr ⟨hnew, ?_⟩⟩
      · rintro r hr _ hd rfl
        exact (hfresh r hd).1 hr
      · exact fun r hr => (hfresh r hr).2

/-! ## The number of iterations -/

theorem Valid.declared_le_reachable (indexed : registered.Indexed)
    (h : Valid registered root s) :
    s.declared ≤ ((registered.reachable root).map fun a => a.dependencies.length).sum :=
  h.declared_le_of_subset fun a ha =>
    (Registry.mem_reachable_iff indexed).mpr ⟨h.find?_reached a ha, h.reaches a ha⟩

/-- The fuel that closures are given is enough for what a root reaches. -/
theorem reachable_le_bound (registered : Registry) (root : Reference) :
    1 + ((registered.reachable root).map fun a => a.dependencies.length).sum ≤
      bound registered := by
  have hsub : (registered.reachable root).Sublist registered.values := List.filter_sublist
  have hle := (hsub.map fun a => a.dependencies.length).sum_le_sum fun _ _ => Nat.zero_le _
  rw [bound_eq]
  omega

theorem iterations_le (indexed : registered.Indexed) (root : Reference) (fuel : ℕ) :
    ((start root).loop registered fuel).iterations +
        ((start root).loop registered fuel).final.queue.length ≤
      1 + ((registered.reachable root).map fun a => a.dependencies.length).sum := by
  have hpaid := loop_iterations registered fuel (start root)
  have hdeclared := ((valid_start registered root).run indexed fuel).declared_le_reachable indexed
  have hq : (start root).queue.length = 1 := rfl
  rw [← loop_final] at hdeclared
  omega

/-- With one iteration for the root and one for every dependency of what it reaches, the loop comes
to an empty queue. -/
theorem queue_loop (indexed : registered.Indexed) {fuel : ℕ}
    (enough : 1 + ((registered.reachable root).map fun a => a.dependencies.length).sum ≤ fuel) :
    ((start root).loop registered fuel).final.queue = [] := by
  have hle := iterations_le indexed root fuel
  rcases loop_stops registered fuel (start root) with h | h
  · exact h
  · exact List.eq_nil_of_length_eq_zero (by omega)

end Search

namespace Outcome

variable {c : Context} {root : Reference}

theorem mem_reachable_iff (assembled : c.Assembled) {a : Artifact} :
    a ∈ c.symbols.reachable root ↔ a ∈ (finished c root).reached := by
  rw [Registry.mem_reachable_iff assembled.indexed, ← mem_reached_iff assembled, List.mem_map]
  have hfind := (valid_finished assembled root).find?_reached
  constructor
  · rintro ⟨ha, b, hb, hr⟩
    obtain rfl : b = a := Option.some.inj ((hfind b hb).symm.trans (hr ▸ ha))
    exact hb
  · exact fun ha => ⟨hfind a ha, a, ha, rfl⟩

/-- The loop behind the closure of a root in a frozen context ends with an empty queue after at most
one iteration for the root and one for every dependency that an artifact reached from it declares,
and what it has found by then is the outcome. On the way it resolves the root and every dependency of
what is reached, each of them once. -/
theorem ofRoot_terminates (assembled : c.Assembled) (frozen : c.phase = .frozen) (root : Reference)
    {fuel : ℕ}
    (enough : 1 + ((c.symbols.reachable root).map fun a => a.dependencies.length).sum ≤ fuel) :
    let progress := (Search.start root).loop c.symbols fuel
    progress.final.queue = [] ∧
      progress.iterations ≤
        1 + ((c.symbols.reachable root).map fun a => a.dependencies.length).sum ∧
      progress.resolved.Nodup ∧
      (∀ r, r ∈ progress.resolved ↔
        r = root ∨ ∃ a ∈ c.symbols.reachable root, r ∈ a.dependencies) ∧
      ofRoot c root = ⟨root, progress.final.reached,
        progress.final.missing.map .missingDependency⟩ := by
  intro progress
  have hqueue : progress.final.queue = [] := Search.queue_loop assembled.indexed enough
  have hfinal : progress.final = finished c root := by
    have hrun := Search.loop_final c.symbols fuel (Search.start root)
    exact hrun.trans (Search.run_eq_of_empty (hrun ▸ hqueue)
      (Search.queue_run_bound assembled.indexed))
  have hvisited : progress.final.visited = progress.resolved.reverse ++ [] :=
    Search.loop_visited c.symbols fuel (Search.start root)
  refine ⟨hqueue, ?_, (Search.loop_resolved c.symbols fuel _).1, fun r => ?_, ?_⟩
  · exact (Nat.le_add_right _ _).trans (Search.iterations_le assembled.indexed root fuel)
  · have hdemands := (valid_finished assembled root).demands_iff r
    rw [← hfinal, hqueue, hvisited, List.append_nil, List.mem_reverse] at hdemands
    simp only [mem_reachable_iff assembled, ← hfinal]
    simpa [Search.Demands] using hdemands.symm
  · rw [hfinal]
    exact ofRoot_of_frozen frozen root

/-- Rules that depend on themselves, on each other and twice on the same, and on one that is not
registered. -/
def knottedRules : List Artifact :=
  let rule (id : String) (dependencies : List String) : Artifact :=
    ⟨id, 1, ⟨"", 0, ""⟩, dependencies.map fun d => ⟨.rule, d, 1⟩, .rule ⟨"x", "==", .integer 0, ""⟩⟩
  [rule "a" ["a", "b", "b", "lost"], rule "b" ["a", "c", "b"], rule "c" ["lost", "b"],
    rule "apart" ["a", "a"]]

/-- Of nine dependencies that the three rules reached from the first one declare, five were looked at
before they could be queued. -/
theorem ofRoot_terminates_knottedRules :
    let c : Context := ⟨Registry.ofArtifacts knottedRules, .frozen⟩
    let root : Reference := ⟨.rule, "a", 1⟩
    let progress := (Search.start root).loop c.symbols (Search.bound c.symbols)
    c.Assembled ∧ c.phase = .frozen ∧
      1 + ((c.symbols.reachable root).map fun a => a.dependencies.length).sum ≤
        Search.bound c.symbols ∧
      progress.final.queue = [] ∧ progress.resolved.Nodup ∧ progress.iterations = 5 ∧
      progress.resolved.map (·.id) = ["a", "b", "lost", "c"] ∧
      (ofRoot c root).reached.map (·.id) = ["a", "b", "c"] := by
  intro c root progress
  have assembled := Context.assembled_ofArtifacts knottedRules .frozen
  have enough := Search.reachable_le_bound c.symbols root
  obtain ⟨hqueue, -, hnodup, -, -⟩ := ofRoot_terminates assembled rfl root enough
  exact ⟨assembled, rfl, enough, hqueue, hnodup, by decide, by decide, by decide⟩

end Outcome
end Verdict
