import Mathlib
import Verdict.Closure
import Verdict.Proofs.Context

/-!
# The search behind a closure

One step of the search keeps an invariant that ties its four parts together: what has been looked at
is what was reached and what is missing, and what was asked for is what has been looked at and what
is still queued. A run that is long enough empties the queue, so nothing asked for is left out.
-/

namespace Verdict

namespace Registry

/-- What a root reaches by declared dependencies, through registered artifacts only. -/
inductive Reaches (registered : Registry) (root : Reference) : Reference → Prop
  | root : registered.contains root = true → Reaches registered root root
  | step {r d : Reference} {a : Artifact} : Reaches registered root r →
      registered.find? r = some a → d ∈ a.dependencies → registered.contains d = true →
      Reaches registered root d

theorem Reaches.contains {registered : Registry} {root r : Reference}
    (h : registered.Reaches root r) : registered.contains r = true := by
  cases h with
  | root h => exact h
  | step _ _ _ h => exact h

end Registry

namespace Search

variable (registered : Registry) (root : Reference)

/-! ## One step -/

/-- The search after a reference that was looked at before. -/
def passOver (s : Search) (rest : List Reference) : Search := { s with queue := rest }

/-- The search after a reference under which nothing is registered. -/
def miss (s : Search) (r : Reference) (rest : List Reference) : Search :=
  { s with queue := rest, visited := r :: s.visited, missing := s.missing ++ [r] }

/-- The search after a reference under which an artifact is registered. -/
def expand (s : Search) (r : Reference) (rest : List Reference) (a : Artifact) : Search :=
  { s with
    queue := rest ++ a.dependencies.filter fun d => d ∉ r :: s.visited
    visited := r :: s.visited
    reached := s.reached ++ [a] }

theorem step_of_empty {s : Search} (h : s.queue = []) : s.step registered = s := by
  simp [step, h]

theorem step_of_visited {s : Search} {r : Reference} {rest : List Reference}
    (h : s.queue = r :: rest) (hv : r ∈ s.visited) : s.step registered = s.passOver rest := by
  simp [step, passOver, h, hv]

theorem step_of_missing {s : Search} {r : Reference} {rest : List Reference}
    (h : s.queue = r :: rest) (hv : r ∉ s.visited) (hr : registered.find? r = none) :
    s.step registered = s.miss r rest := by
  simp [step, miss, h, hv, hr]

theorem step_of_found {s : Search} {r : Reference} {rest : List Reference} {a : Artifact}
    (h : s.queue = r :: rest) (hv : r ∉ s.visited) (hr : registered.find? r = some a) :
    s.step registered = s.expand r rest a := by
  simp [step, expand, h, hv, hr]

/-- The four things that a step can do. -/
theorem step_cases (P : Search → Prop) (s : Search)
    (empty : s.queue = [] → P s)
    (visited : ∀ r rest, s.queue = r :: rest → r ∈ s.visited → P (s.passOver rest))
    (missing : ∀ r rest, s.queue = r :: rest → r ∉ s.visited → registered.find? r = none →
      P (s.miss r rest))
    (found : ∀ r rest a, s.queue = r :: rest → r ∉ s.visited → registered.find? r = some a →
      P (s.expand r rest a)) :
    P (s.step registered) := by
  cases hq : s.queue with
  | nil =>
    rw [step_of_empty registered hq]
    exact empty hq
  | cons r rest =>
    by_cases hv : r ∈ s.visited
    · rw [step_of_visited registered hq hv]
      exact visited r rest hq hv
    · cases hr : registered.find? r with
      | none =>
        rw [step_of_missing registered hq hv hr]
        exact missing r rest hq hv hr
      | some a =>
        rw [step_of_found registered hq hv hr]
        exact found r rest a hq hv hr

/-! ## What a step keeps -/

/-- What a search has been asked for: the root and what the reached artifacts depend on. -/
def Demands (s : Search) (r : Reference) : Prop :=
  r = root ∨ ∃ a ∈ s.reached, r ∈ a.dependencies

/-- How the parts of a search hang together at any time. -/
structure Valid (s : Search) : Prop where
  demands_iff : ∀ r, s.Demands root r ↔ r ∈ s.queue ∨ r ∈ s.visited
  visited_iff : ∀ r, r ∈ s.visited ↔ r ∈ s.reached.map Artifact.reference ∨ r ∈ s.missing
  reached_nodup : (s.reached.map Artifact.reference).Nodup
  missing_nodup : s.missing.Nodup
  find?_reached : ∀ a ∈ s.reached, registered.find? a.reference = some a
  reaches : ∀ a ∈ s.reached, registered.Reaches root a.reference
  unregistered : ∀ r ∈ s.missing, registered.find? r = none

theorem valid_start : Valid registered root (start root) where
  demands_iff := by simp [Demands, start]
  visited_iff := by simp [start]
  reached_nodup := List.nodup_nil
  missing_nodup := List.nodup_nil
  find?_reached := by simp [start]
  reaches := by simp [start]
  unregistered := by simp [start]

variable {registered root}

theorem Valid.visited {s : Search} (h : Valid registered root s) {r : Reference}
    {rest : List Reference} (hq : s.queue = r :: rest) (hv : r ∈ s.visited) :
    Valid registered root (s.passOver rest) where
  demands_iff := by
    intro x
    refine (h.demands_iff x).trans ?_
    rw [hq]
    constructor
    · rintro (hx | hx)
      · rcases List.mem_cons.mp hx with rfl | hx
        · exact .inr hv
        · exact .inl hx
      · exact .inr hx
    · exact Or.imp_left (List.mem_cons_of_mem _)
  visited_iff := h.visited_iff
  reached_nodup := h.reached_nodup
  missing_nodup := h.missing_nodup
  find?_reached := h.find?_reached
  reaches := h.reaches
  unregistered := h.unregistered

theorem Valid.missing {s : Search} (h : Valid registered root s) {r : Reference}
    {rest : List Reference} (hq : s.queue = r :: rest) (hv : r ∉ s.visited)
    (hr : registered.find? r = none) :
    Valid registered root (s.miss r rest) where
  demands_iff := by
    intro x
    refine (h.demands_iff x).trans ?_
    simp only [miss, hq, List.mem_cons]
    tauto
  visited_iff := by
    intro x
    simp only [miss, List.mem_cons, h.visited_iff x, List.mem_append, List.not_mem_nil, or_false]
    tauto
  reached_nodup := h.reached_nodup
  missing_nodup := by
    rw [miss, List.nodup_append]
    refine ⟨h.missing_nodup, List.nodup_singleton _, ?_⟩
    intro a ha b hb hab
    rw [List.mem_singleton] at hb
    exact hv ((h.visited_iff r).mpr (.inr (hb ▸ hab ▸ ha)))
  find?_reached := h.find?_reached
  reaches := h.reaches
  unregistered := by
    intro x hx
    rcases List.mem_append.mp hx with hx | hx
    · exact h.unregistered x hx
    · rw [List.mem_singleton] at hx
      exact hx ▸ hr

/-- What is asked for and registered is reached by the root. -/
theorem Valid.reaches_of_demands {s : Search} (h : Valid registered root s) {r : Reference}
    (hd : s.Demands root r) (hr : registered.contains r = true) : registered.Reaches root r := by
  rcases hd with rfl | ⟨a, ha, hd⟩
  · exact .root hr
  · exact .step (h.reaches a ha) (h.find?_reached a ha) hd hr

/-- Reaching an artifact asks for its dependencies and for nothing else. -/
theorem demands_expand_iff {s : Search} {r x : Reference} {rest : List Reference} {a : Artifact} :
    (s.expand r rest a).Demands root x ↔ s.Demands root x ∨ x ∈ a.dependencies := by
  simp only [Demands, expand, List.mem_append, List.mem_singleton]
  constructor
  · rintro (rfl | ⟨b, hb | rfl, hd⟩)
    · exact .inl (.inl rfl)
    · exact .inl (.inr ⟨b, hb, hd⟩)
    · exact .inr hd
  · rintro ((rfl | ⟨b, hb, hd⟩) | hd)
    · exact .inl rfl
    · exact .inr ⟨b, .inl hb, hd⟩
    · exact .inr ⟨a, .inr rfl, hd⟩

theorem Valid.found (indexed : registered.Indexed) {s : Search} (h : Valid registered root s)
    {r : Reference} {rest : List Reference} {a : Artifact} (hq : s.queue = r :: rest)
    (hv : r ∉ s.visited) (hr : registered.find? r = some a) :
    Valid registered root (s.expand r rest a) := by
  have href : a.reference = r := indexed.reference_eq r a hr
  have hreach : registered.Reaches root r := by
    refine h.reaches_of_demands ((h.demands_iff r).mpr (.inl ?_)) (by simp [Table.contains, hr])
    rw [hq]
    exact List.mem_cons_self
  constructor
  case demands_iff =>
    intro x
    rw [demands_expand_iff, h.demands_iff x, hq]
    simp only [expand, List.mem_append, List.mem_cons, List.mem_filter, decide_eq_true_eq]
    tauto
  case visited_iff =>
    intro x
    simp only [expand, List.mem_cons, h.visited_iff x, List.map_append, List.mem_append, List.map_cons,
      List.map_nil, List.not_mem_nil, or_false, href]
    tauto
  case reached_nodup =>
    rw [expand, List.map_append, List.nodup_append]
    refine ⟨h.reached_nodup, List.nodup_singleton _, ?_⟩
    intro x hx y hy hxy
    rw [List.map_singleton, List.mem_singleton, href] at hy
    exact hv ((h.visited_iff r).mpr (.inl (hy ▸ hxy ▸ hx)))
  case missing_nodup => exact h.missing_nodup
  case find?_reached =>
    intro b hb
    rcases List.mem_append.mp hb with hb | hb
    · exact h.find?_reached b hb
    · rw [List.mem_singleton] at hb
      rw [hb, href, hr]
  case reaches =>
    intro b hb
    rcases List.mem_append.mp hb with hb | hb
    · exact h.reaches b hb
    · rw [List.mem_singleton] at hb
      rw [hb, href]
      exact hreach
  case unregistered => exact h.unregistered

theorem Valid.step (indexed : registered.Indexed) {s : Search} (h : Valid registered root s) :
    Valid registered root (s.step registered) :=
  step_cases registered (Valid registered root) s (fun _ => h) (fun _ _ hq hv => h.visited hq hv)
    (fun _ _ hq hv hr => h.missing hq hv hr) (fun _ _ _ hq hv hr => h.found indexed hq hv hr)

theorem Valid.run (indexed : registered.Indexed) (n : ℕ) {s : Search}
    (h : Valid registered root s) : Valid registered root (s.run registered n) := by
  induction n generalizing s with
  | zero => exact h
  | succ n ih => exact ih (h.step indexed)

/-! ## The end of a run -/

theorem run_of_empty {s : Search} (h : s.queue = []) (n : ℕ) : s.run registered n = s := by
  induction n with
  | zero => rfl
  | succ n ih => rw [Search.run, step_of_empty registered h, ih]

/-- The number of dependencies that the reached artifacts declare. -/
def declared (s : Search) : ℕ := (s.reached.map fun a => a.dependencies.length).sum

/-- Every step takes one reference off the queue and adds at most the dependencies of the artifact
it reaches. -/
theorem length_queue_step (registered : Registry) (s : Search) (h : s.queue ≠ []) :
    (s.step registered).queue.length + 1 + s.declared ≤
      s.queue.length + (s.step registered).declared := by
  apply step_cases registered
    fun t => t.queue.length + 1 + s.declared ≤ s.queue.length + t.declared
  · intro hq
    exact absurd hq h
  · intro r rest hq _
    simp [declared, passOver, hq]
  · intro r rest hq _ _
    simp [declared, miss, hq]
  · intro r rest a hq _ _
    have hf := List.length_filter_le (fun d => decide (d ∉ r :: s.visited)) a.dependencies
    simp only [declared, expand, hq, List.length_append, List.length_cons, List.map_append,
      List.sum_append, List.map_cons, List.map_nil, List.sum_singleton]
    omega

/-- A run empties the queue or takes every step off it. -/
theorem length_queue_run (registered : Registry) (n : ℕ) (s : Search) :
    (s.run registered n).queue = [] ∨
      n + (s.run registered n).queue.length + s.declared ≤
        s.queue.length + (s.run registered n).declared := by
  induction n generalizing s with
  | zero => simp [Search.run]
  | succ n ih =>
    by_cases hq : s.queue = []
    · left
      rw [run_of_empty hq, hq]
    · rcases ih (s.step registered) with h | h
      · exact .inl h
      · right
        have hl := length_queue_step registered s hq
        rw [Search.run]
        omega

/-- Different reached artifacts declare their dependencies among those of any artifacts that they
belong to. -/
theorem Valid.declared_le_of_subset {s : Search} (h : Valid registered root s) {as : List Artifact}
    (hsub : s.reached ⊆ as) : s.declared ≤ (as.map fun a => a.dependencies.length).sum := by
  obtain ⟨l, hp, hl⟩ := (List.Nodup.of_map _ h.reached_nodup).subperm hsub
  rw [declared, ← (hp.map fun a => a.dependencies.length).sum_eq]
  exact (hl.map fun a => a.dependencies.length).sum_le_sum fun _ _ => Nat.zero_le _

theorem Valid.declared_le {s : Search} (h : Valid registered root s) :
    s.declared ≤ (registered.values.map fun a => a.dependencies.length).sum :=
  h.declared_le_of_subset fun a ha => Table.mem_values_of_find? (h.find?_reached a ha)

theorem bound_eq (registered : Registry) :
    bound registered = 1 + (registered.values.map fun a => a.dependencies.length).sum := by
  rw [bound]
  induction registered.values with
  | nil => rfl
  | cons a as ih =>
    rw [List.foldr_cons, ih, List.map_cons, List.sum_cons]
    omega

/-- The bound on the number of steps is large enough for the queue to run empty. -/
theorem queue_run_bound (indexed : registered.Indexed) :
    ((start root).run registered (bound registered)).queue = [] := by
  have hv := (valid_start registered root).run indexed (bound registered)
  rcases length_queue_run registered (bound registered) (start root) with h | h
  · exact h
  · have hd := hv.declared_le
    have hb := bound_eq registered
    have hq : (start root).queue.length = 1 := rfl
    exact List.eq_nil_of_length_eq_zero (by omega)

end Search
end Verdict
