import Verdict.Proofs.Closure.Extension
import Verdict.Proofs.FirstOccurrences

/-!
# Breadth-first order

The references at one distance from the root stand together in the queue. A search that has looked
at the nearer ones goes through them in one stretch, and what it has queued by then is what is one
step farther away. So the search lists references by distance, and at one distance in the order in
which the artifacts before them ask for them.
-/

namespace Verdict

namespace Registry

variable {registered : Registry} {root r d : Reference} {m n : ℕ}

/-! ## Distances -/

/-- A root leads to a reference by a number of declared dependencies. Whatever is passed on the way
is registered; the reference itself need not be. -/
inductive Path (registered : Registry) (root : Reference) : ℕ → Reference → Prop
  | root : Path registered root 0 root
  | step {n : ℕ} {r d : Reference} {a : Artifact} : Path registered root n r →
      registered.find? r = some a → d ∈ a.dependencies → Path registered root (n + 1) d

/-- The length of a shortest path, if there is a path. -/
noncomputable def distance (registered : Registry) (root r : Reference) : ℕ :=
  sInf {n | registered.Path root n r}

theorem path_zero_iff : registered.Path root 0 r ↔ r = root := by
  constructor
  · rintro ⟨⟩
    rfl
  · rintro rfl
    exact .root

theorem path_succ_iff : registered.Path root (n + 1) d ↔
    ∃ r a, registered.Path root n r ∧ registered.find? r = some a ∧ d ∈ a.dependencies := by
  constructor
  · rintro (_ | ⟨hr, ha, hd⟩)
    exact ⟨_, _, hr, ha, hd⟩
  · rintro ⟨r, a, hr, ha, hd⟩
    exact .step hr ha hd

theorem Path.isLeast (h : registered.Path root n r) :
    IsLeast {n | registered.Path root n r} (registered.distance root r) :=
  ⟨Nat.sInf_mem ⟨n, h⟩, fun _ hm => Nat.sInf_le hm⟩

theorem Path.distance_le (h : registered.Path root n r) : registered.distance root r ≤ n :=
  h.isLeast.2 h

theorem Path.distance_eq (h : registered.Path root n r) (hn : ¬∃ m < n, registered.Path root m r) :
    registered.distance root r = n := by
  refine (Nat.eq_or_lt_of_le h.distance_le).resolve_right fun hlt => ?_
  exact hn ⟨_, hlt, h.isLeast.1⟩

/-- What the artifacts at a distance depend on, in the order in which they are listed. -/
noncomputable def demandsAt (registered : Registry) (root : Reference) (listed : List Artifact)
    (n : ℕ) : List Reference :=
  (listed.filter fun a => registered.distance root a.reference = n).flatMap Artifact.dependencies

/-- One reference is nearer to the root than another, or it is as far away and asked for earlier by
the artifacts one step nearer. -/
def Precedes (registered : Registry) (root : Reference) (listed : List Artifact)
    (r d : Reference) : Prop :=
  registered.distance root r < registered.distance root d ∨
    ∃ n, registered.distance root r = n + 1 ∧ registered.distance root d = n + 1 ∧
      FirstBefore (registered.demandsAt root listed n) r d

/-- Artifacts that are listed later change no order. -/
theorem Precedes.mono {listed listed' : List Artifact}
    (h : registered.Precedes root listed r d) (hl : listed <+: listed') :
    registered.Precedes root listed' r d := by
  refine h.imp_right ?_
  rintro ⟨n, hr, hd, hfirst⟩
  refine ⟨n, hr, hd, hfirst.mono ?_⟩
  obtain ⟨later, rfl⟩ := hl
  rw [demandsAt, demandsAt, List.filter_append, List.flatMap_append]
  exact List.prefix_append _ _

/-- Nothing comes before the root. -/
theorem not_precedes_root {listed : List Artifact} : ¬registered.Precedes root listed r root := by
  have hzero : registered.distance root root = 0 := Nat.le_zero.mp (Path.distance_le .root)
  rintro (hlt | ⟨n, -, hn, -⟩)
  · omega
  · omega

end Registry

namespace Search

variable {registered : Registry} {root : Reference} {s t : Search}
  {front rest : List Reference} {n : ℕ}

/-! ## A stretch of the queue -/

/-- A search has gone through a stretch at the front of the queue. It has looked at the references
there that were new, and queued what the artifacts found depend on, as far as that was new. -/
structure Advanced (registered : Registry) (s : Search) (front rest : List Reference) (t : Search) :
    Prop where
  visited_eq : t.visited = (unseen s.visited front).reverse ++ s.visited
  reached_eq : t.reached = s.reached ++ (unseen s.visited front).filterMap registered.find?
  missing_eq : t.missing =
    s.missing ++ (unseen s.visited front).filter fun r => (registered.find? r).isNone
  queue_eq : ∃ behind, t.queue = rest ++ behind ∧ (behind.filter fun r => r ∉ t.visited) =
    (((unseen s.visited front).filterMap registered.find?).flatMap Artifact.dependencies).filter
      fun r => r ∉ t.visited

namespace Advanced

variable {r : Reference}

theorem of_visited (h : Advanced registered (s.passOver (front ++ rest)) front rest t)
    (hv : r ∈ s.visited) : Advanced registered s (r :: front) rest t := by
  have hnew := unseen_cons_of_mem hv front
  constructor
  case visited_eq => rw [hnew]; exact h.visited_eq
  case reached_eq => rw [hnew]; exact h.reached_eq
  case missing_eq => rw [hnew]; exact h.missing_eq
  case queue_eq => rw [hnew]; exact h.queue_eq

theorem of_missing (h : Advanced registered (s.miss r (front ++ rest)) front rest t)
    (hv : r ∉ s.visited) (hr : registered.find? r = none) :
    Advanced registered s (r :: front) rest t := by
  have hnew := unseen_cons_of_not_mem hv front
  constructor
  case visited_eq => rw [h.visited_eq, hnew]; simp [miss]
  case reached_eq => rw [h.reached_eq, hnew]; simp [miss, hr]
  case missing_eq => rw [h.missing_eq, hnew]; simp [miss, hr]
  case queue_eq =>
    rw [hnew, List.filterMap_cons_none hr]
    exact h.queue_eq

theorem of_found {a : Artifact} (h : Advanced registered (s.expand r (front ++ rest) a) front
    (rest ++ a.dependencies.filter fun d => d ∉ r :: s.visited) t)
    (hv : r ∉ s.visited) (hr : registered.find? r = some a) :
    Advanced registered s (r :: front) rest t := by
  have hnew := unseen_cons_of_not_mem hv front
  constructor
  case visited_eq => rw [h.visited_eq, hnew]; simp [expand]
  case reached_eq => rw [h.reached_eq, hnew]; simp [expand, hr]
  case missing_eq => rw [h.missing_eq, hnew]; simp [expand, hr]
  case queue_eq =>
    obtain ⟨behind, hbehind, hfilter⟩ := h.queue_eq
    rw [hnew, List.filterMap_cons_some hr, List.flatMap_cons]
    refine ⟨_, hbehind.trans (List.append_assoc ..), ?_⟩
    rw [List.filter_append, List.filter_append, hfilter, List.filter_filter]
    -- what was seen when the artifact was reached is seen at the end of the stretch
    have hseen (d : Reference) (hd : d ∉ t.visited) : d ∉ r :: s.visited := by
      intro hmem
      rw [h.visited_eq] at hd
      exact hd (List.mem_append_right _ hmem)
    congr 1
    refine List.filter_congr fun d _ => ?_
    rw [Bool.eq_iff_iff, Bool.and_eq_true, decide_eq_true_eq, decide_eq_true_eq]
    exact and_iff_left_of_imp (hseen d)

/-- What is new in the queue behind a stretch is what the artifacts found in it depend on. -/
theorem mem_queue_iff (h : Advanced registered s front [] t) {d : Reference} (hd : d ∉ t.visited) :
    d ∈ t.queue ↔
      ∃ r ∈ unseen s.visited front, ∃ a, registered.find? r = some a ∧ d ∈ a.dependencies := by
  obtain ⟨behind, hqueue, hbehind⟩ := h.queue_eq
  have hmem := congrArg (d ∈ ·) hbehind
  simp only [List.mem_filter, hd, not_false_eq_true, decide_true, and_true, List.mem_flatMap,
    List.mem_filterMap] at hmem
  rw [hqueue, List.nil_append, hmem]
  constructor
  · rintro ⟨a, ⟨r, hr, ha⟩, hda⟩
    exact ⟨r, hr, a, ha, hda⟩
  · rintro ⟨r, hr, a, ha, hda⟩
    exact ⟨a, ⟨r, hr, ha⟩, hda⟩

end Advanced

theorem advanced_run (hq : s.queue = front ++ rest) :
    Advanced registered s front rest (s.run registered front.length) := by
  induction front generalizing s rest with
  | nil =>
    constructor
    case queue_eq => exact ⟨[], by simpa [run] using hq, by simp [unseen]⟩
    all_goals simp [run, unseen]
  | cons r front ih =>
    have hrun : s.run registered (r :: front).length =
        (s.step registered).run registered front.length := rfl
    rw [List.cons_append] at hq
    rw [hrun]
    by_cases hv : r ∈ s.visited
    · rw [step_of_visited registered hq hv]
      exact (ih rfl).of_visited hv
    · cases hr : registered.find? r with
      | none =>
        rw [step_of_missing registered hq hv hr]
        exact (ih rfl).of_missing hv hr
      | some a =>
        rw [step_of_found registered hq hv hr]
        exact (ih (List.append_assoc front rest _)).of_found hv hr

/-! ## Levels -/

/-- A search has looked at everything nearer to the root than a distance, and the references at this
distance are what is new in its queue. -/
structure AtLevel (registered : Registry) (root : Reference) (n : ℕ) (s : Search) : Prop where
  visited_iff : ∀ r, r ∈ s.visited ↔ ∃ m < n, registered.Path root m r
  queue_iff : ∀ r, r ∉ s.visited → (r ∈ s.queue ↔ registered.Path root n r)
  queue_eq : ∀ k, n = k + 1 → (s.queue.filter fun r => r ∉ s.visited) =
    (registered.demandsAt root s.reached k).filter fun r => r ∉ s.visited
  reached_eq : s.reached = s.visited.reverse.filterMap registered.find?
  missing_eq : s.missing = s.visited.reverse.filter fun r => (registered.find? r).isNone
  ordered : s.visited.reverse.Pairwise (registered.Precedes root s.reached)

theorem atLevel_start : AtLevel registered root 0 (start root) where
  visited_iff := by simp [start]
  queue_iff := by simp [start, Registry.path_zero_iff]
  queue_eq := by simp
  reached_eq := rfl
  missing_eq := rfl
  ordered := List.Pairwise.nil

namespace AtLevel

variable {r : Reference} (h : AtLevel registered root n s)

include h

theorem distance_of_visited (hr : r ∈ s.visited) : registered.distance root r < n := by
  obtain ⟨m, hm, hpath⟩ := (h.visited_iff r).mp hr
  exact hpath.distance_le.trans_lt hm

theorem mem_new_iff : r ∈ unseen s.visited s.queue ↔
    registered.Path root n r ∧ ¬∃ m < n, registered.Path root m r := by
  rw [mem_unseen_iff, ← h.visited_iff]
  exact and_congr_left (h.queue_iff r)

theorem distance_of_new (hr : r ∈ unseen s.visited s.queue) : registered.distance root r = n :=
  have hpath := h.mem_new_iff.mp hr
  hpath.1.distance_eq hpath.2

/-- The new references stand in the order in which the artifacts one step nearer ask for them. -/
theorem ordered_new : (unseen s.visited s.queue).Pairwise (registered.Precedes root s.reached) := by
  cases n with
  | zero =>
    -- at distance zero there is only the root
    refine (listsFirst_eraseDups _).nodup.imp_of_mem fun {r d} hr hd hne => absurd ?_ hne
    have hroot : ∀ x ∈ unseen s.visited s.queue, x = root := fun x hx =>
      Registry.path_zero_iff.mp (h.mem_new_iff.mp hx).1
    rw [hroot r hr, hroot d hd]
  | succ k =>
    have hfirst := (listsFirst_eraseDups (s.queue.filter fun r => r ∉ s.visited)).ordered
    refine hfirst.imp_of_mem fun {r d} hr hd hrd => .inr ⟨k, ?_⟩
    refine ⟨h.distance_of_new hr, h.distance_of_new hd, ?_⟩
    rw [h.queue_eq k rfl] at hrd
    exact hrd.of_filter

/-- After the stretch the artifacts at the distance are those found in it. -/
theorem demandsAt_eq (indexed : registered.Indexed) (ht : Advanced registered s s.queue [] t) :
    registered.demandsAt root t.reached n =
      ((unseen s.visited s.queue).filterMap registered.find?).flatMap Artifact.dependencies := by
  have hold : (s.reached.filter fun a => registered.distance root a.reference = n) = [] := by
    rw [List.filter_eq_nil_iff, h.reached_eq]
    intro a ha
    obtain ⟨r, hr, hfind⟩ := List.mem_filterMap.mp ha
    rw [List.mem_reverse] at hr
    rw [decide_eq_true_eq, indexed.reference_eq r a hfind]
    exact (h.distance_of_visited hr).ne
  have hnew : ∀ a ∈ (unseen s.visited s.queue).filterMap registered.find?,
      decide (registered.distance root a.reference = n) = true := by
    intro a ha
    obtain ⟨r, hr, hfind⟩ := List.mem_filterMap.mp ha
    rw [decide_eq_true_eq, indexed.reference_eq r a hfind]
    exact h.distance_of_new hr
  rw [Registry.demandsAt, ht.reached_eq, List.filter_append, hold, List.nil_append,
    List.filter_eq_self.mpr hnew]

theorem visited_iff_of_advanced (ht : Advanced registered s s.queue [] t) :
    r ∈ t.visited ↔ ∃ m < n + 1, registered.Path root m r := by
  rw [ht.visited_eq, List.mem_append, List.mem_reverse, h.mem_new_iff, h.visited_iff,
    Nat.exists_lt_succ_right]
  generalize (∃ m < n, registered.Path root m r) = nearer
  tauto

theorem queue_iff_of_advanced (ht : Advanced registered s s.queue [] t) {d : Reference}
    (hd : d ∉ t.visited) : d ∈ t.queue ↔ registered.Path root (n + 1) d := by
  rw [ht.mem_queue_iff hd, Registry.path_succ_iff]
  constructor
  · rintro ⟨r, hr, a, ha, hda⟩
    exact ⟨r, a, (h.mem_new_iff.mp hr).1, ha, hda⟩
  · rintro ⟨r, a, hr, ha, hda⟩
    refine ⟨r, h.mem_new_iff.mpr ⟨hr, ?_⟩, a, ha, hda⟩
    -- from a nearer reference the dependency would have been seen
    rintro ⟨m, hm, hnear⟩
    exact hd ((h.visited_iff_of_advanced ht).mpr ⟨m + 1, Nat.succ_lt_succ hm, .step hnear ha hda⟩)

/-- The next stretch takes a search one step farther from the root. -/
theorem advance (indexed : registered.Indexed) (ht : Advanced registered s s.queue [] t) :
    AtLevel registered root (n + 1) t := by
  obtain ⟨behind, hqueue, hbehind⟩ := ht.queue_eq
  rw [List.nil_append] at hqueue
  have hreverse : t.visited.reverse = s.visited.reverse ++ unseen s.visited s.queue := by
    rw [ht.visited_eq, List.reverse_append, List.reverse_reverse]
  have hreached : s.reached <+: t.reached := ht.reached_eq ▸ List.prefix_append _ _
  constructor
  case visited_iff => exact fun r => h.visited_iff_of_advanced ht
  case queue_iff => exact fun d hd => h.queue_iff_of_advanced ht hd
  case queue_eq =>
    intro k hk
    obtain rfl : n = k := Nat.succ.inj hk
    rw [hqueue, hbehind, h.demandsAt_eq indexed ht]
  case reached_eq => rw [ht.reached_eq, hreverse, List.filterMap_append, ← h.reached_eq]
  case missing_eq => rw [ht.missing_eq, hreverse, List.filter_append, ← h.missing_eq]
  case ordered =>
    rw [hreverse, List.pairwise_append]
    refine ⟨h.ordered.imp (·.mono hreached), h.ordered_new.imp (·.mono hreached), ?_⟩
    intro r hr d hd
    rw [List.mem_reverse] at hr
    rw [Registry.Precedes, h.distance_of_new hd]
    exact .inl (h.distance_of_visited hr)

end AtLevel

/-- A run comes from one level to the next, until its queue is empty. -/
theorem exists_atLevel_run (indexed : registered.Indexed) (root : Reference) (n : ℕ) :
    ∃ k, AtLevel registered root n ((start root).run registered k) ∧
      (n ≤ k ∨ ((start root).run registered k).queue = []) := by
  induction n with
  | zero => exact ⟨0, atLevel_start, .inl le_rfl⟩
  | succ n ih =>
    obtain ⟨k, hlevel, hend⟩ := ih
    set s := (start root).run registered k with hs
    have hnext := hlevel.advance indexed (advanced_run (List.append_nil s.queue).symm)
    refine ⟨k + s.queue.length, ?_, ?_⟩
    · rw [run_add]
      exact hnext
    · by_cases hq : s.queue = []
      · right
        rw [run_add, ← hs, run_of_empty hq, hq]
      · have hpos := List.length_pos_of_ne_nil hq
        have hle := hend.resolve_right hq
        left
        omega

end Search

namespace Outcome

variable {c : Context} {root : Reference}

/-- A finished search has come to a level beyond which there is nothing. -/
theorem exists_atLevel_finished (assembled : c.Assembled) (root : Reference) :
    ∃ n, Search.AtLevel c.symbols root n (finished c root) := by
  obtain ⟨k, hlevel, hend⟩ :=
    Search.exists_atLevel_run assembled.indexed root (Search.bound c.symbols)
  have hfinished : ((Search.start root).run c.symbols (Search.bound c.symbols)).queue = [] :=
    Search.queue_run_bound assembled.indexed
  have hq : ((Search.start root).run c.symbols k).queue = [] := by
    rcases hend with hle | hq
    · obtain ⟨j, rfl⟩ := Nat.exists_eq_add_of_le hle
      rw [Search.run_add, Search.run_of_empty hfinished, hfinished]
    · exact hq
  refine ⟨Search.bound c.symbols, ?_⟩
  rw [finished, Search.run_eq_of_empty hfinished hq]
  exact hlevel

/-- An outcome lists what a root reaches by distance from the root, and at one distance in the order
in which the artifacts one step nearer ask for it. What is missing is listed in the same order. -/
structure BreadthFirst (c : Context) (root : Reference) (o : Outcome) : Prop where
  root_first : ∀ a, c.resolve root = .ok a → ∃ others, o.reached = a :: others
  shortest : ∀ a ∈ o.reached, IsLeast {n | c.symbols.Path root n a.reference}
    (c.symbols.distance root a.reference)
  ordered : (o.reached.map Artifact.reference).Pairwise (c.symbols.Precedes root o.reached)
  errors_ordered : ∃ missing : List Reference, o.errors = missing.map .missingDependency ∧
    missing.Pairwise (c.symbols.Precedes root o.reached) ∧
    ∀ r ∈ missing, IsLeast {n | c.symbols.Path root n r} (c.symbols.distance root r)

/-- Artifacts that stand under their own references have them in the order of the search. -/
theorem map_reference_filterMap {registered : Registry} (indexed : registered.Indexed)
    (rs : List Reference) : (rs.filterMap registered.find?).map Artifact.reference =
      rs.filter fun r => (registered.find? r).isSome := by
  induction rs with
  | nil => rfl
  | cons r rs ih =>
    cases hr : registered.find? r with
    | none => simp [hr, ih]
    | some a => simp [hr, ih, indexed.reference_eq r a hr]

/-- A root that is registered is reached. -/
theorem mem_reached_of_resolve (assembled : c.Assembled) (frozen : c.phase = .frozen)
    {a : Artifact} (ha : c.resolve root = .ok a) : a ∈ (ofRoot c root).reached := by
  have closure := isClosure_ofRoot assembled frozen root
  have hfound := (closure.contains_iff root).mpr (.root (Context.contains_iff.mpr ⟨a, ha⟩))
  obtain ⟨b, hb, hroot⟩ := List.mem_map.mp ((contains_iff_mem _ root).mp hfound)
  have hresolve : c.resolve root = .ok b := hroot ▸ closure.resolve_of_mem hb
  rwa [Except.ok.inj (ha.symm.trans hresolve)]

/-- In an order that nothing in it precedes, the root of a closure stands first. -/
theorem root_first_of_ordered {as : List Artifact} {a : Artifact} (ha : a ∈ as)
    (ordered : (as.map Artifact.reference).Pairwise (c.symbols.Precedes a.reference as)) :
    ∃ others, as = a :: others := by
  obtain ⟨before, behind, hsplit⟩ := List.append_of_mem ha
  cases before with
  | nil => exact ⟨behind, hsplit⟩
  | cons first before =>
    rw [hsplit, List.cons_append, List.map_cons, List.pairwise_cons] at ordered
    have hroot : a.reference ∈ (before ++ a :: behind).map Artifact.reference :=
      List.mem_map_of_mem (List.mem_append_right _ List.mem_cons_self)
    exact absurd (ordered.1 _ hroot) Registry.not_precedes_root

/-- The closure of a root in a frozen context is listed breadth first. -/
theorem ofRoot_breadthFirst (assembled : c.Assembled) (frozen : c.phase = .frozen)
    (root : Reference) : (ofRoot c root).BreadthFirst c root := by
  obtain ⟨n, hlevel⟩ := exists_atLevel_finished assembled root
  have hroot := @mem_reached_of_resolve c root assembled frozen
  rw [ofRoot_of_frozen frozen] at hroot ⊢
  have hreached : ((finished c root).reached.map Artifact.reference).Sublist
      (finished c root).visited.reverse := by
    rw [hlevel.reached_eq, map_reference_filterMap assembled.indexed]
    exact List.filter_sublist
  have hmissing : (finished c root).missing.Sublist (finished c root).visited.reverse := by
    rw [hlevel.missing_eq]
    exact List.filter_sublist
  have hshortest : ∀ r ∈ (finished c root).visited.reverse,
      IsLeast {n | c.symbols.Path root n r} (c.symbols.distance root r) := by
    intro r hr
    obtain ⟨m, -, hpath⟩ := (hlevel.visited_iff r).mp (List.mem_reverse.mp hr)
    exact hpath.isLeast
  have ordered := hlevel.ordered.sublist hreached
  constructor
  case root_first =>
    intro a ha
    obtain rfl : a.reference = root :=
      assembled.indexed.reference_eq root a (Context.resolve_eq_ok_iff.mp ha)
    exact root_first_of_ordered (hroot ha) ordered
  case shortest => exact fun a ha => hshortest _ (hreached.subset (List.mem_map_of_mem ha))
  case ordered => exact ordered
  case errors_ordered =>
    exact ⟨_, rfl, hlevel.ordered.sublist hmissing, fun r hr => hshortest r (hmissing.subset hr)⟩

/-- Rules that depend on each other in two directions, and on some that are not registered. -/
def crossingRules : List Artifact :=
  let rule (id : String) (dependencies : List String) : Artifact :=
    ⟨id, 1, ⟨"", 0, ""⟩, dependencies.map fun d => ⟨.rule, d, 1⟩, .rule ⟨"x", "==", .integer 0, ""⟩⟩
  [rule "a" ["d", "root", "lost"], rule "b" ["c", "a", "far"], rule "c" ["d"], rule "d" ["b"],
    rule "root" ["b", "a", "b", "gone"]]

theorem ofRoot_breadthFirst_crossingRules :
    let c : Context := ⟨Registry.ofArtifacts crossingRules, .frozen⟩
    let o := ofRoot c ⟨.rule, "root", 1⟩
    c.Assembled ∧ c.phase = .frozen ∧ o.BreadthFirst c ⟨.rule, "root", 1⟩ ∧
      o.reached.map (·.id) = ["root", "b", "a", "c", "d"] ∧
      o.errors = ["gone", "far", "lost"].map fun id => .missingDependency ⟨.rule, id, 1⟩ :=
  have assembled := Context.assembled_ofArtifacts crossingRules .frozen
  ⟨assembled, rfl, ofRoot_breadthFirst assembled rfl _, by decide, rfl⟩

end Outcome
end Verdict
