import Verdict.Proofs.Closure.Exactness

/-!
# Closures in a larger registry

A search that misses nothing does not see what else is registered. In a registry that has everything
the first one has, perhaps renewed with the same dependencies, it takes the same steps.
-/

namespace Verdict

/-- What is registered is registered in another registry too, as `f` renews it. -/
def Registry.Extends (f : Artifact → Artifact) (registered registered' : Registry) : Prop :=
  ∀ r a, registered.find? r = some a → registered'.find? r = some (f a)

namespace Search

variable {registered registered' : Registry} {f : Artifact → Artifact}

/-- The search with the artifacts it has reached renewed. -/
def renew (f : Artifact → Artifact) (s : Search) : Search := { s with reached := s.reached.map f }

/-! ## What is missing stays missing -/

theorem missing_step (registered : Registry) (s : Search) :
    s.missing <+: (s.step registered).missing := by
  apply step_cases registered fun t => s.missing <+: t.missing
  · exact fun _ => List.prefix_refl _
  · exact fun _ _ _ _ => List.prefix_refl _
  · exact fun r _ _ _ _ => List.prefix_append _ [r]
  · exact fun _ _ _ _ _ _ => List.prefix_refl _

theorem missing_run (registered : Registry) (n : ℕ) (s : Search) :
    s.missing <+: (s.run registered n).missing := by
  induction n generalizing s with
  | zero => exact List.prefix_refl _
  | succ n ih => exact (missing_step registered s).trans (ih _)

/-! ## The same steps -/

section Renew

variable (extended : registered.Extends f registered')
  (keeps : ∀ a, (f a).dependencies = a.dependencies)

include extended keeps

theorem step_renew {s : Search} (complete : (s.step registered).missing = []) :
    (s.renew f).step registered' = (s.step registered).renew f := by
  cases hq : s.queue with
  | nil => rw [step_of_empty registered hq, step_of_empty (s := s.renew f) registered' hq]
  | cons r rest =>
    by_cases hv : r ∈ s.visited
    · rw [step_of_visited registered hq hv, step_of_visited (s := s.renew f) registered' hq hv]
      rfl
    · cases hr : registered.find? r with
      | none =>
        rw [step_of_missing registered hq hv hr] at complete
        exact absurd complete (List.append_ne_nil_of_right_ne_nil _ (List.cons_ne_nil _ _))
      | some a =>
        rw [step_of_found registered hq hv hr,
          step_of_found (s := s.renew f) registered' hq hv (extended r a hr)]
        simp only [expand, renew, keeps, List.map_append, List.map_singleton]
        rfl

theorem run_renew {n : ℕ} {s : Search} (complete : (s.run registered n).missing = []) :
    (s.renew f).run registered' n = (s.run registered n).renew f := by
  induction n generalizing s with
  | zero => rfl
  | succ n ih =>
    -- what the first step missed would still be missing at the end
    have hnext : (s.step registered).missing = [] := by
      have hprefix := missing_run registered n (s.step registered)
      rw [show (s.step registered).run registered n = s.run registered (n + 1) from rfl,
        complete] at hprefix
      exact List.prefix_nil.mp hprefix
    rw [Search.run, step_renew extended keeps hnext]
    exact ih complete

end Renew

/-! ## The end of a run -/

theorem run_add (registered : Registry) (n m : ℕ) (s : Search) :
    s.run registered (n + m) = (s.run registered n).run registered m := by
  induction n generalizing s with
  | zero => rw [Nat.zero_add]; rfl
  | succ n ih =>
    rw [Nat.add_right_comm]
    exact ih _

/-- Two runs that have emptied the queue have come to the same end. -/
theorem run_eq_of_empty {n m : ℕ} {s : Search} (hn : (s.run registered n).queue = [])
    (hm : (s.run registered m).queue = []) : s.run registered n = s.run registered m := by
  rcases Nat.le_total n m with h | h
  · obtain ⟨k, rfl⟩ := Nat.exists_eq_add_of_le h
    rw [run_add, run_of_empty hn]
  · obtain ⟨k, rfl⟩ := Nat.exists_eq_add_of_le h
    rw [run_add, run_of_empty hm]

end Search

namespace Outcome

/-- An outcome without errors is the same, up to renewal, wherever more is registered. -/
theorem ofRoot_renew {c c' : Context} (assembled : c.Assembled) (assembled' : c'.Assembled)
    (frozen : c.phase = .frozen) (frozen' : c'.phase = .frozen) {f : Artifact → Artifact}
    (extended : c.symbols.Extends f c'.symbols) (keeps : ∀ a, (f a).dependencies = a.dependencies)
    {root : Reference} (success : (ofRoot c root).isSuccess = true) :
    ofRoot c' root = { ofRoot c root with reached := (ofRoot c root).reached.map f } := by
  rw [ofRoot_of_frozen frozen] at success ⊢
  rw [ofRoot_of_frozen frozen']
  have complete : (finished c root).missing = [] := by simpa [isSuccess] using success
  have hrun : (Search.start root).run c'.symbols (Search.bound c.symbols) =
      (finished c root).renew f := Search.run_renew extended keeps complete
  -- the larger registry has a bound of its own, but the queue is empty after either
  have hempty : ((Search.start root).run c'.symbols (Search.bound c.symbols)).queue = [] := by
    rw [hrun]
    exact Search.queue_run_bound assembled.indexed
  have hfinished : finished c' root = (finished c root).renew f :=
    (Search.run_eq_of_empty (Search.queue_run_bound assembled'.indexed) hempty).trans hrun
  rw [hfinished]
  rfl

end Outcome
end Verdict
