import Mathlib
import Verdict.Compilation.Library
import Verdict.Proofs.Compilation.Document
import Verdict.Proofs.Context

/-!
# What compiling a library leaves behind

Documents are compiled kind by kind, and a challenge only asks for tasks, which are all compiled
before it. So every document has one result that does not depend on its place, and the run leaves
the last good result of every reference, a count for every good result and a warning for every other.
-/

namespace Verdict

open Results

/-- The last value that a partial function has on a list comes from the last item that has one. -/
theorem getLast?_filterMap_eq_some_iff {α β : Type} {f : α → Option β} {xs : List α} {b : β} :
    (xs.filterMap f).getLast? = some b ↔ ∃ before x after, xs = before ++ x :: after ∧
      f x = some b ∧ ∀ y ∈ after, f y = none := by
  rw [List.getLast?_filterMap, List.findSome?_eq_some_iff]
  constructor
  · rintro ⟨after, x, before, h, hx, hn⟩
    refine ⟨before.reverse, x, after.reverse, ?_, hx, by simpa using hn⟩
    rw [← List.reverse_reverse xs, h]
    simp
  · rintro ⟨before, x, after, rfl, hx, hn⟩
    exact ⟨after.reverse, x, before.reverse, by simp, hx, by simpa using hn⟩

namespace Library

/-! ## The order of compilation -/


theorem flatMap_filter_kind_perm {ks : List Kind} (hks : ks.Nodup) (us : List SourceUnit)
    (h : ∀ u ∈ us, u.kind ∈ ks) : (ks.flatMap fun k => us.filter fun u => u.kind = k).Perm us := by
  induction ks generalizing us with
  | nil =>
    have : us = [] := List.eq_nil_iff_forall_not_mem.mpr fun u hu => by simpa using h u hu
    rw [this]
    exact List.Perm.refl _
  | cons k ks ih =>
    obtain ⟨hk, hks⟩ := List.nodup_cons.mp hks
    have hrest := ih hks (us.filter fun u => !decide (u.kind = k)) fun u hu => by
      simp only [List.mem_filter, Bool.not_eq_true', decide_eq_false_iff_not] at hu
      exact (List.mem_cons.mp (h u hu.1)).resolve_left hu.2
    have heq : (ks.flatMap fun k => us.filter fun u => u.kind = k) = ks.flatMap fun k' =>
        (us.filter fun u => !decide (u.kind = k)).filter fun u => u.kind = k' := by
      refine List.flatMap_congr fun k' hk' => ?_
      rw [List.filter_filter]
      refine List.filter_congr fun u _ => ?_
      have : u.kind = k' → u.kind ≠ k := fun h h' => hk (h' ▸ h ▸ hk')
      by_cases hu : u.kind = k'
      · simp [hu, hu ▸ this hu]
      · simp [hu]
    rw [List.flatMap_cons, heq]
    exact (hrest.append_left _).trans (List.filter_append_perm _ us)

theorem units_perm (l : Library) : l.units.Perm l.loaded :=
  flatMap_filter_kind_perm (by decide) l.loaded fun u _ => by cases u.kind <;> decide

/-- Documents of one reference keep their order. -/
theorem filter_reference_units (l : Library) (r : Reference) :
    (l.units.filter fun u => u.reference = r) = l.loaded.filter fun u => u.reference = r := by
  have hkind : ∀ k : Kind, ((l.ofKind k).filter fun u => u.reference = r) =
      if k = r.kind then l.loaded.filter fun u => u.reference = r else [] := by
    intro k
    rw [ofKind, List.filter_filter]
    split_ifs with hk
    · refine List.filter_congr fun u _ => ?_
      by_cases hu : u.reference = r
      · simp [hk, ← hu, SourceUnit.reference]
      · simp [hu]
    · rw [List.filter_eq_nil_iff]
      rintro u - hu
      simp only [Bool.and_eq_true, decide_eq_true_eq] at hu
      exact hk (hu.2.symm.trans (congrArg Reference.kind hu.1))
  rw [units, List.filter_flatMap]
  simp only [hkind]
  cases r.kind <;> simp [Kind.all]

theorem pairwise_order_units (l : Library) :
    l.units.Pairwise fun u v => u.kind.order ≤ v.kind.order := by
  rw [units, List.pairwise_flatMap]
  constructor
  · intro k _
    refine List.pairwise_of_forall_mem_list fun u hu v hv => ?_
    simp only [ofKind, List.mem_filter, decide_eq_true_eq] at hu hv
    rw [hu.2, hv.2]
  · have horder : Kind.all.Pairwise fun k k' => k.order ≤ k'.order := by decide
    refine horder.imp fun hk u hu v hv => ?_
    simp only [ofKind, List.mem_filter, decide_eq_true_eq] at hu hv
    rw [hu.2, hv.2]
    exact hk

/-- Every task of a library is compiled before any of its challenges. -/
theorem task_mem_before {l : Library} {before after : List SourceUnit} {u v : SourceUnit}
    (h : l.units = before ++ u :: after) (hu : u.kind = .challenge) (hv : v ∈ l.loaded)
    (htask : v.kind = .task) : v ∈ before := by
  have hp := l.pairwise_order_units
  rw [h, List.pairwise_append, List.pairwise_cons] at hp
  have hm : v ∈ before ++ u :: after := h ▸ l.units_perm.mem_iff.mpr hv
  rcases List.mem_append.mp hm with hb | ha
  · exact hb
  · rcases List.mem_cons.mp ha with rfl | ha
    · simp [hu] at htask
    · have := hp.2.1.1 v ha
      simp [hu, htask, Kind.order] at this

/-! ## One result for every document -/

/-- The tasks of a library that compile. -/
def tasks (builtAt : UInt64) (l : Library) : Registry :=
  .ofArtifacts ((l.ofKind .task).filterMap fun u =>
    (compile u.kind Table.empty builtAt u.content).toOption)

/-- What a document of a library compiles to, wherever it stands in it. -/
def outcome (builtAt : UInt64) (l : Library) (u : SourceUnit) : Except CompileError Artifact :=
  compile u.kind (l.tasks builtAt) builtAt u.content

variable {builtAt : UInt64} {l : Library}

theorem outcome_of_ne_challenge {u : SourceUnit} (h : u.kind ≠ .challenge) (registered : Registry) :
    compile u.kind registered builtAt u.content = l.outcome builtAt u :=
  compile_of_ne_challenge h _ _

theorem Parsed.reference_outcome (parsed : l.Parsed) {u : SourceUnit} (hu : u ∈ l.loaded)
    {a : Artifact} (h : l.outcome builtAt u = .ok a) : a.reference = u.reference :=
  reference_of_compile (parsed u hu) h

end Library

/-! ## One document after the other -/

namespace LibraryResult

/-- A document that compiles is registered, and every other leaves the context as it is. -/
theorem add_context (builtAt : UInt64) (r : LibraryResult) (u : SourceUnit) :
    (r.add builtAt u).context = r.context ∨
      ∃ a, compile u.kind r.context.symbols builtAt u.content = .ok a ∧
        r.context.register a = .ok (r.add builtAt u).context := by
  unfold add
  split
  case h_1 c hc =>
    obtain ⟨a, ha, hregister⟩ := bind_eq_ok_iff.mp hc
    exact .inr ⟨a, ha, hregister⟩
  case h_2 => exact .inl rfl

/-- What compiling and registering one of some documents keeps is kept by a run over them. -/
theorem foldl_add_induct {builtAt : UInt64} {P : Context → Prop} (us : List SourceUnit)
    (step : ∀ c c', ∀ u ∈ us, ∀ a, P c → compile u.kind c.symbols builtAt u.content = .ok a →
      c.register a = .ok c' → P c')
    (r : LibraryResult) (h : P r.context) : P (us.foldl (add builtAt) r).context := by
  induction us generalizing r with
  | nil => exact h
  | cons u us ih =>
    rw [List.foldl_cons]
    apply ih fun c c' v hv => step c c' v (List.mem_cons_of_mem u hv)
    rcases r.add_context builtAt u with heq | ⟨a, ha, hregister⟩
    · rw [heq]
      exact h
    · exact step _ _ u List.mem_cons_self a h ha hregister

/-- What holds of everything registered and of everything that compiles holds of everything that is
registered after a run. -/
theorem foldl_add_forall {builtAt : UInt64} {P : Artifact → Prop} (us : List SourceUnit)
    (compiled : ∀ u ∈ us, ∀ registered a, compile u.kind registered builtAt u.content = .ok a → P a)
    (r : LibraryResult) (h : ∀ k a, r.context.symbols.find? k = some a → P a) :
    ∀ k a, (us.foldl (add builtAt) r).context.symbols.find? k = some a → P a := by
  refine foldl_add_induct (P := fun c => ∀ k a, c.symbols.find? k = some a → P a) us ?_ r h
  intro c c' u hu a hc ha hregister k b hb
  obtain ⟨-, rfl⟩ := Context.register_eq_ok_iff.mp hregister
  rcases Registry.eq_or_find?_of_register hb with ⟨-, rfl⟩ | hb
  · exact compiled u hu _ _ ha
  · exact hc k b hb

theorem assembled_compileLibrary (builtAt : UInt64) (l : Library) :
    (compileLibrary builtAt l .empty).context.Assembled :=
  foldl_add_induct l.units (fun _ _ _ _ _ hc _ hregister => hc.register hregister) _ .empty

/-- Whatever is registered was compiled from a document of the library. -/
theorem exists_unit {builtAt : UInt64} {l : Library} {r : Reference} {a : Artifact}
    (h : (compileLibrary builtAt l .empty).context.resolve r = .ok a) :
    ∃ u ∈ l.loaded, ∃ registered, compile u.kind registered builtAt u.content = .ok a := by
  rw [Context.resolve_eq_ok_iff] at h
  refine foldl_add_forall (P := fun a => ∃ u ∈ l.loaded, ∃ registered,
    compile u.kind registered builtAt u.content = .ok a) l.units ?_ (start .empty) ?_ r a h
  · exact fun u hu registered a ha => ⟨u, l.units_perm.mem_iff.mp hu, registered, ha⟩
  · simp [start, Context.empty]

end LibraryResult

/-! ## A run as the results of its documents -/

namespace LibraryResult

/-- The warning about a document that does not compile. -/
def warning? (u : SourceUnit) : Except CompileError Artifact → Option Diagnostic
  | .ok _ => none
  | .error e => some ⟨.warning, some u.origin, e.message⟩

/-- What is left behind if the documents have the results that `result` gives. -/
def ofResults (result : SourceUnit → Except CompileError Artifact) (us : List SourceUnit) :
    LibraryResult where
  context := ⟨.ofArtifacts (us.filterMap fun u => (result u).toOption), .running⟩
  compiled := (us.filter fun u => (result u).isOk).map (·.kind)
  warnings := us.filterMap fun u => warning? u (result u)

@[simp] theorem warning?_ok (u : SourceUnit) (a : Artifact) : warning? u (.ok a) = none := rfl

@[simp] theorem warning?_error (u : SourceUnit) (e : CompileError) :
    warning? u (.error e) = some ⟨.warning, some u.origin, e.message⟩ := rfl

theorem add_ofResults {builtAt : UInt64} {result : SourceUnit → Except CompileError Artifact}
    {us : List SourceUnit} {u : SourceUnit}
    (h : compile u.kind (ofResults result us).context.symbols builtAt u.content = result u) :
    (ofResults result us).add builtAt u = ofResults result (us ++ [u]) := by
  unfold add
  rw [h]
  cases hr : result u with
  | error e => simp [ofResults, Except.bind, hr]
  | ok a => simp [ofResults, Except.bind, Context.register, hr, Registry.ofArtifacts]

/-- Every document is counted or warned about, and none both ways. -/
theorem length_ofResults (result : SourceUnit → Except CompileError Artifact)
    (us : List SourceUnit) : (ofResults result us).compiled.length +
      (ofResults result us).warnings.length = us.length := by
  simp only [ofResults, List.length_map]
  induction us with
  | nil => rfl
  | cons u us ih =>
    cases hu : result u with
    | ok a =>
      simp only [List.filter_cons, List.filterMap_cons, hu, isOk_ok, warning?_ok, if_true,
        List.length_cons]
      omega
    | error e =>
      simp only [List.filter_cons, List.filterMap_cons, hu, isOk_error, warning?_error,
        Bool.false_eq_true, if_false, List.length_cons]
      omega

/-- The results of some documents, each the artifact of its own document. -/
def Faithful (result : SourceUnit → Except CompileError Artifact) (us : List SourceUnit) : Prop :=
  ∀ u ∈ us, ∀ a, result u = .ok a → a.reference = u.reference

variable {result : SourceUnit → Except CompileError Artifact} {us : List SourceUnit}

/-- Under a reference stands the result of the last document that has one. -/
theorem find?_ofResults (faithful : Faithful result us) (r : Reference) :
    (ofResults result us).context.symbols.find? r =
      ((us.filter fun u => u.reference = r).filterMap fun u => (result u).toOption).getLast? := by
  have hfilter : ((us.filterMap fun u => (result u).toOption).filter fun a => a.reference = r) =
      (us.filter fun u => u.reference = r).filterMap fun u => (result u).toOption := by
    induction us with
    | nil => rfl
    | cons u us ih =>
      have ih := ih fun v hv => faithful v (List.mem_cons_of_mem u hv)
      cases hu : result u with
      | error e =>
        by_cases hr : u.reference = r <;> simp [hu, hr, ih]
      | ok a =>
        have ha := faithful u List.mem_cons_self a hu
        by_cases hr : u.reference = r <;> simp [hu, hr, ha, ih]
  rw [← hfilter]
  exact Registry.find?_ofArtifacts _ r

theorem contains_ofResults (faithful : Faithful result us) (r : Reference) :
    (ofResults result us).context.symbols.contains r = true ↔
      ∃ u ∈ us, u.reference = r ∧ ∃ a, result u = .ok a := by
  rw [Table.contains, find?_ofResults faithful, List.getLast?_isSome, ne_eq,
    List.eq_nil_iff_forall_not_mem, not_forall]
  simp only [not_not, List.mem_filterMap, List.mem_filter, decide_eq_true_eq, toOption_eq_some_iff]
  constructor
  · rintro ⟨a, u, ⟨hu, hr⟩, ha⟩
    exact ⟨u, hu, hr, a, ha⟩
  · rintro ⟨u, hu, hr, a, ha⟩
    exact ⟨a, u, ⟨hu, hr⟩, ha⟩

end LibraryResult

namespace Library

variable {builtAt : UInt64} {l : Library}

theorem Parsed.faithful (parsed : l.Parsed) {us : List SourceUnit} (h : ∀ u ∈ us, u ∈ l.loaded) :
    LibraryResult.Faithful (l.outcome builtAt) us :=
  fun u hu _ ha => parsed.reference_outcome (h u hu) ha

/-- A task is there for the challenges if some document of its reference compiles. -/
theorem Parsed.contains_tasks (parsed : l.Parsed) (t : VersionedId) :
    (l.tasks builtAt).contains (t.withKind .task) = true ↔
      ∃ u ∈ l.loaded, u.reference = t.withKind .task ∧ ∃ a, l.outcome builtAt u = .ok a := by
  have hkind : ∀ u ∈ l.ofKind .task, u.kind = .task := by
    intro u hu
    simpa [ofKind] using (List.mem_filter.mp hu).2
  have hout : l.tasks builtAt =
      (LibraryResult.ofResults (l.outcome builtAt) (l.ofKind .task)).context.symbols := by
    unfold tasks LibraryResult.ofResults
    congr 1
    refine List.filterMap_congr fun u hu => ?_
    rw [outcome_of_ne_challenge (by simp [hkind u hu])]
  have faithful : LibraryResult.Faithful (l.outcome builtAt) (l.ofKind .task) :=
    parsed.faithful fun u hu => List.mem_of_mem_filter hu
  rw [hout, LibraryResult.contains_ofResults faithful]
  constructor
  · rintro ⟨u, hu, h⟩
    exact ⟨u, List.mem_of_mem_filter hu, h⟩
  · rintro ⟨u, hu, hr, h⟩
    exact ⟨u, List.mem_filter.mpr ⟨hu, decide_eq_true (congrArg Reference.kind hr)⟩, hr, h⟩

/-- In the run every document has its result. -/
theorem Parsed.compile_in_run (parsed : l.Parsed) {before after : List SourceUnit} {u : SourceUnit}
    (h : l.units = before ++ u :: after) :
    compile u.kind (LibraryResult.ofResults (l.outcome builtAt) before).context.symbols builtAt
      u.content = l.outcome builtAt u := by
  by_cases hu : u.kind = .challenge
  · refine compile_congr fun t => ?_
    rw [Bool.eq_iff_iff, parsed.contains_tasks]
    have hbefore : ∀ v ∈ before, v ∈ l.loaded := by
      intro v hv
      rw [← l.units_perm.mem_iff, h]
      exact List.mem_append_left _ hv
    rw [LibraryResult.contains_ofResults (parsed.faithful hbefore)]
    constructor
    · rintro ⟨v, hv, hr⟩
      exact ⟨v, hbefore v hv, hr⟩
    · rintro ⟨v, hv, hr, ha⟩
      exact ⟨v, task_mem_before h hu hv (congrArg Reference.kind hr), hr, ha⟩
  · exact outcome_of_ne_challenge hu _

/-- A run part way through holds the results of the documents behind it. -/
theorem Parsed.foldl_add (parsed : l.Parsed) {before after : List SourceUnit}
    (h : l.units = before ++ after) :
    before.foldl (LibraryResult.add builtAt) (.start .empty) =
      .ofResults (l.outcome builtAt) before := by
  induction before using List.reverseRecOn generalizing after with
  | nil => rfl
  | append_singleton before u ih =>
    rw [List.append_assoc] at h
    rw [List.foldl_append, ih h]
    exact LibraryResult.add_ofResults (parsed.compile_in_run h)

theorem Parsed.compileLibrary_eq (parsed : l.Parsed) :
    compileLibrary builtAt l .empty = .ofResults (l.outcome builtAt) l.units :=
  parsed.foldl_add (List.append_nil _).symm

/-! ## Counting -/

theorem sum_countKinds (ks : List Kind) : ((countKinds ks).map (·.2)).sum = ks.length := by
  have hfilter : ∀ es : List (Kind × ℕ),
      ((es.filter fun e => e.2 ≠ 0).map (·.2)).sum = (es.map (·.2)).sum := by
    intro es
    induction es with
    | nil => rfl
    | cons e es ih =>
      by_cases he : e.2 = 0
      · simpa [he] using ih
      · simpa [he] using ih
  rw [countKinds, hfilter]
  induction ks with
  | nil => rfl
  | cons k ks ih =>
    simp only [Kind.all, List.map_cons, List.map_nil, List.sum_cons, List.sum_nil,
      List.length_cons] at ih ⊢
    cases k <;> simp <;> omega

theorem mem_countKinds_iff {ks : List Kind} {k : Kind} {n : ℕ} :
    (k, n) ∈ countKinds ks ↔ n ≠ 0 ∧ n = ks.count k := by
  have hk : k ∈ Kind.all := by cases k <;> decide
  simp only [countKinds, List.mem_filter, List.mem_map, decide_eq_true_eq, Prod.mk.injEq]
  constructor
  · rintro ⟨⟨k, -, rfl, rfl⟩, hn⟩
    exact ⟨hn, rfl⟩
  · rintro ⟨hn, rfl⟩
    exact ⟨⟨k, hk, rfl, rfl⟩, hn⟩

theorem countKinds_eq_of_perm {ks ks' : List Kind} (h : ks.Perm ks') :
    countKinds ks = countKinds ks' := by
  simp only [countKinds, h.count_eq]

end Library

namespace LibraryResult

/-- What compiling a library into a fresh context has to leave, with no order of documents in it but
that of documents with one reference. -/
structure Accounts (builtAt : UInt64) (l : Library) (r : LibraryResult) : Prop where
  /-- In the run every document has its result. -/
  compile_eq : ∀ before u after, l.units = before ++ u :: after →
    compile u.kind (before.foldl (add builtAt) (start .empty)).context.symbols builtAt u.content =
      l.outcome builtAt u
  resolve_isOk_iff : ∀ ref, (∃ a, r.context.resolve ref = .ok a) ↔
    ∃ u ∈ l.loaded, u.reference = ref ∧ ∃ a, l.outcome builtAt u = .ok a
  /-- What stands under a reference is the result of the last good document loaded with it. -/
  resolve_eq_ok_iff : ∀ ref a, r.context.resolve ref = .ok a ↔ ∃ before u after,
    l.loaded = before ++ u :: after ∧ u.reference = ref ∧ l.outcome builtAt u = .ok a ∧
      ∀ v ∈ after, v.reference = ref → ∃ e, l.outcome builtAt v = .error e
  outcome_of_ne_challenge : ∀ u : SourceUnit, u.kind ≠ .challenge → ∀ registered,
    compile u.kind registered builtAt u.content = l.outcome builtAt u
  outcome_challenge_isOk_iff : ∀ u : SourceUnit, u.kind = .challenge →
    ((∃ a, l.outcome builtAt u = .ok a) ↔
      ∃ d tasks, Document.ofJson .challenge u.content = .ok d ∧ d.ListsTasks tasks ∧
        ∀ t ∈ tasks, ∃ v ∈ l.loaded, v.reference = t.withKind .task ∧
          ∃ b, l.outcome builtAt v = .ok b)
  reference_eq : ∀ u ∈ l.loaded, ∀ a, l.outcome builtAt u = .ok a → a.reference = u.reference
  counts_iff : ∀ k n, (k, n) ∈ r.counts ↔
    n ≠ 0 ∧ n = ((l.ofKind k).filter fun u => (l.outcome builtAt u).isOk).length
  warnings_perm : r.warnings.Perm (l.loaded.filterMap fun u => warning? u (l.outcome builtAt u))
  total : (r.counts.map (·.2)).sum + r.warnings.length = l.size

end LibraryResult

namespace Library

variable {builtAt : UInt64} {l : Library}

theorem Parsed.accounts (parsed : l.Parsed) :
    (compileLibrary builtAt l .empty).Accounts builtAt l := by
  have faithful : LibraryResult.Faithful (l.outcome builtAt) l.units :=
    parsed.faithful fun u hu => l.units_perm.mem_iff.mp hu
  have hrun : compileLibrary builtAt l .empty = .ofResults (l.outcome builtAt) l.units :=
    parsed.compileLibrary_eq
  constructor
  case compile_eq =>
    intro before u after h
    rw [parsed.foldl_add h]
    exact parsed.compile_in_run h
  case resolve_isOk_iff =>
    intro ref
    rw [hrun, ← Context.contains_iff]
    exact (LibraryResult.contains_ofResults faithful ref).trans
      ⟨fun ⟨u, hu, h⟩ => ⟨u, l.units_perm.mem_iff.mp hu, h⟩,
        fun ⟨u, hu, h⟩ => ⟨u, l.units_perm.mem_iff.mpr hu, h⟩⟩
  case resolve_eq_ok_iff =>
    intro ref a
    rw [hrun, Context.resolve_eq_ok_iff, LibraryResult.find?_ofResults faithful,
      filter_reference_units, List.filterMap_filter, getLast?_filterMap_eq_some_iff]
    have hsome : ∀ u : SourceUnit,
        (if decide (u.reference = ref) = true then (l.outcome builtAt u).toOption else none) =
          some a ↔ u.reference = ref ∧ l.outcome builtAt u = .ok a := by
      intro u
      by_cases hu : u.reference = ref <;> simp [hu, toOption_eq_some_iff]
    have hnone : ∀ u : SourceUnit,
        (if decide (u.reference = ref) = true then (l.outcome builtAt u).toOption else none) =
          none ↔ (u.reference = ref → ∃ e, l.outcome builtAt u = .error e) := by
      intro u
      by_cases hu : u.reference = ref <;> simp [hu, toOption_eq_none_iff]
    simp only [hsome, hnone, and_assoc]
  case outcome_of_ne_challenge =>
    exact fun u hu registered => Library.outcome_of_ne_challenge hu registered
  case outcome_challenge_isOk_iff =>
    intro u hu
    unfold outcome
    rw [hu, compile_challenge_isOk_iff]
    simp only [parsed.contains_tasks]
    rfl
  case reference_eq => exact fun u hu a ha => parsed.reference_outcome hu ha
  case counts_iff =>
    intro k n
    rw [LibraryResult.counts, mem_countKinds_iff, hrun]
    have hcount : (LibraryResult.ofResults (l.outcome builtAt) l.units).compiled.count k =
        ((l.ofKind k).filter fun u => (l.outcome builtAt u).isOk).length := by
      rw [LibraryResult.ofResults, ofKind, List.filter_comm, List.count_eq_countP, List.countP_map,
        ← List.countP_eq_length_filter, ((l.units_perm.filter _).countP_eq _)]
      rfl
    rw [hcount]
  case warnings_perm =>
    rw [hrun]
    exact l.units_perm.filterMap _
  case total =>
    rw [LibraryResult.counts, sum_countKinds, hrun, size, ← l.units_perm.length_eq]
    exact LibraryResult.length_ofResults _ _

/-! ## Reordering documents -/

/-- A library with the same documents, those of one reference in the same order. -/
structure Reorders (l' l : Library) : Prop where
  perm : l'.loaded.Perm l.loaded
  filter_eq : ∀ ref : Reference, (l'.loaded.filter fun u => u.reference = ref) =
    l.loaded.filter fun u => u.reference = ref

variable {l' : Library}

/-- The order of documents of different kinds is free. -/
theorem reorders_of_ofKind_eq (h : ∀ k, l'.ofKind k = l.ofKind k) : l'.Reorders l := by
  have hunits : l'.units = l.units := by
    rw [units, units]
    exact List.flatMap_congr fun k _ => h k
  constructor
  · exact l'.units_perm.symm.trans (hunits ▸ l.units_perm)
  · intro ref
    rw [← l'.filter_reference_units ref, hunits, l.filter_reference_units ref]

theorem Reorders.parsed (h : l'.Reorders l) (parsed : l.Parsed) : l'.Parsed :=
  fun u hu => parsed u (h.perm.mem_iff.mp hu)

theorem Reorders.units_perm (h : l'.Reorders l) : l'.units.Perm l.units :=
  (l'.units_perm.trans h.perm).trans l.units_perm.symm

/-- Results do not depend on the order of documents at all. -/
theorem Parsed.outcome_eq_of_perm (parsed : l.Parsed) (h : l'.loaded.Perm l.loaded) :
    l'.outcome builtAt = l.outcome builtAt := by
  have parsed' : l'.Parsed := fun u hu => parsed u (h.mem_iff.mp hu)
  funext u
  refine compile_congr fun t => ?_
  -- a task looks at no other document, so it has one result in both libraries
  have htask : ∀ v : SourceUnit, v.reference = t.withKind .task →
      l'.outcome builtAt v = l.outcome builtAt v := by
    intro v hv
    have hkind : v.kind = .task := congrArg Reference.kind hv
    exact outcome_of_ne_challenge (by simp [hkind]) _
  rw [Bool.eq_iff_iff, parsed'.contains_tasks, parsed.contains_tasks]
  constructor
  · rintro ⟨v, hv, hr, a, ha⟩
    exact ⟨v, h.mem_iff.mp hv, hr, a, (htask v hr).symm.trans ha⟩
  · rintro ⟨v, hv, hr, a, ha⟩
    exact ⟨v, h.mem_iff.mpr hv, hr, a, (htask v hr).trans ha⟩

theorem Reorders.resolve_eq (h : l'.Reorders l) (parsed : l.Parsed) (ref : Reference) :
    (compileLibrary builtAt l' .empty).context.resolve ref =
      (compileLibrary builtAt l .empty).context.resolve ref := by
  have parsed' := h.parsed parsed
  have faithful (k : Library) (hk : k.Parsed) :
      LibraryResult.Faithful (k.outcome builtAt) k.units :=
    hk.faithful fun u hu => k.units_perm.mem_iff.mp hu
  unfold Context.resolve
  rw [parsed'.compileLibrary_eq, parsed.compileLibrary_eq,
    LibraryResult.find?_ofResults (faithful l' parsed'),
    LibraryResult.find?_ofResults (faithful l parsed), filter_reference_units,
    filter_reference_units, h.filter_eq, parsed.outcome_eq_of_perm h.perm]

theorem Parsed.indexed (parsed : l.Parsed) :
    (compileLibrary builtAt l .empty).context.symbols.Indexed := by
  rw [parsed.compileLibrary_eq]
  exact Registry.indexed_ofArtifacts _

theorem Reorders.size_eq (h : l'.Reorders l) (parsed : l.Parsed) :
    (compileLibrary builtAt l' .empty).context.size =
      (compileLibrary builtAt l .empty).context.size := by
  refine (h.parsed parsed).indexed.distinct.size_eq parsed.indexed.distinct fun ref => ?_
  change (compileLibrary builtAt l' .empty).context.contains ref = true ↔
    (compileLibrary builtAt l .empty).context.contains ref = true
  rw [Context.contains_iff, Context.contains_iff, h.resolve_eq parsed ref]

theorem Reorders.counts_eq (h : l'.Reorders l) (parsed : l.Parsed) :
    (compileLibrary builtAt l' .empty).counts = (compileLibrary builtAt l .empty).counts := by
  rw [(h.parsed parsed).compileLibrary_eq, parsed.compileLibrary_eq,
    parsed.outcome_eq_of_perm h.perm]
  exact countKinds_eq_of_perm ((h.units_perm.filter _).map _)

theorem Reorders.warnings_perm (h : l'.Reorders l) (parsed : l.Parsed) :
    (compileLibrary builtAt l' .empty).warnings.Perm
      (compileLibrary builtAt l .empty).warnings := by
  rw [(h.parsed parsed).compileLibrary_eq, parsed.compileLibrary_eq,
    parsed.outcome_eq_of_perm h.perm]
  exact h.units_perm.filterMap _

/-- Compiling a library leaves what its documents compile to one by one, and so it does not matter
in which order documents of different references are loaded. -/
theorem compileLibrary_accounts (builtAt : UInt64) {l : Library} (parsed : l.Parsed) :
    (compileLibrary builtAt l .empty).Accounts builtAt l ∧
      ∀ l' : Library, l'.Reorders l →
        (∀ ref, (compileLibrary builtAt l' .empty).context.resolve ref =
          (compileLibrary builtAt l .empty).context.resolve ref) ∧
        (compileLibrary builtAt l' .empty).context.size =
          (compileLibrary builtAt l .empty).context.size ∧
        (compileLibrary builtAt l' .empty).counts = (compileLibrary builtAt l .empty).counts ∧
        (compileLibrary builtAt l' .empty).warnings.Perm
          (compileLibrary builtAt l .empty).warnings :=
  ⟨parsed.accounts, fun _ h => ⟨h.resolve_eq parsed, h.size_eq parsed, h.counts_eq parsed,
    h.warnings_perm parsed⟩⟩

/-- A document with the given spec. -/
def document (kind : Kind) (id : String) (spec : List (String × Json)) : SourceUnit :=
  ⟨kind, id, 1, .obj [("kind", .str kind.name), ("id", .str id), ("version", .num (.int 1)),
    ("spec", .obj spec)], id⟩

/-- The same document as it is read from a text: the members are sorted by key. -/
def readDocument (kind : Kind) (id : String) (spec : List (String × Json)) : SourceUnit :=
  let u := document kind id spec
  { u with content := u.content.sortKeys }

theorem ofText_readDocument {kind : Kind} {id : String} {spec : List (String × Json)}
    (stored : (document kind id spec).content.Storable Json.Draft.depthLimit)
    (hu : SourceUnit.ofJson id (document kind id spec).content.sortKeys =
      .ok (readDocument kind id spec)) :
    SourceUnit.ofText id (document kind id spec).content.compact =
      .ok (readDocument kind id spec) :=
  SourceUnit.ofText_compact stored hu

/-- Two challenges, one of a task that is there and one of a task that is not. The task has two
documents, and the later one does not compile. -/
def twoChallenges : Library :=
  let challenge (id task : String) :=
    document .challenge id [("tasks", .arr [.obj [("id", .str task)]])]
  ⟨[challenge "c" "t", challenge "d" "u",
    document .task "t" [("rulesetRef", .obj [("id", .str "rs")]), ("resultType", .str "SCORE")],
    document .task "t" [("resultType", .str "SCORE")]]⟩

/-- The same documents, challenges last. -/
def twoChallengesLast : Library := ⟨twoChallenges.loaded.drop 2 ++ twoChallenges.loaded.take 2⟩

theorem parsed_twoChallenges : twoChallenges.Parsed := by
  simp only [Parsed, twoChallenges, List.forall_mem_cons]
  exact ⟨rfl, rfl, rfl, rfl, by simp⟩

theorem reorders_twoChallenges : twoChallengesLast.Reorders twoChallenges :=
  reorders_of_ofKind_eq fun k => by cases k <;> rfl

theorem compileLibrary_accounts_twoChallenges :
    twoChallenges.Parsed ∧ twoChallengesLast.Reorders twoChallenges ∧
      (compileLibrary 0 twoChallenges .empty).counts = [(.task, 1), (.challenge, 1)] ∧
      (compileLibrary 0 twoChallenges .empty).warnings.length = 2 ∧
      (compileLibrary 0 twoChallengesLast .empty).counts =
        (compileLibrary 0 twoChallenges .empty).counts ∧
      ((compileLibrary 0 twoChallenges .empty).counts.map (·.2)).sum +
        (compileLibrary 0 twoChallenges .empty).warnings.length = twoChallenges.size :=
  have h := compileLibrary_accounts 0 parsed_twoChallenges
  ⟨parsed_twoChallenges, reorders_twoChallenges, by decide, by decide,
    (h.2 _ reorders_twoChallenges).2.2.1, h.1.total⟩

end Library
end Verdict
