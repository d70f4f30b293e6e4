import Verdict.Proofs.Archive.Stamping
import Verdict.Proofs.Build.Soundness
import Verdict.Proofs.Closure.Extension

/-!
# Unrelated documents

Documents that are added to a library do not change the archive of a root that could be built
without them. They may refer to anything, they may fail to compile, and they may let a challenge
compile that did not; but what the root reaches was registered before and stays as it was, since a
document is compiled to the same artifact whatever else there is.
-/

namespace Verdict

open Results

/-! ## One document -/

/-- With more registered, a document is compiled to what it was, at its own time. -/
theorem Compilation.body_mono {kind : Kind} {registered registered' : Registry} {d : Document}
    {c : Compiled} (h : body kind registered d = .ok c)
    (grown : kind = .challenge → ∀ t : VersionedId, registered.contains (t.withKind .task) = true →
      registered'.contains (t.withKind .task) = true) : body kind registered' d = .ok c := by
  by_cases hkind : kind = .challenge
  · subst hkind
    obtain ⟨tasks, hlisted, hcontains, rfl⟩ := challenge_eq_ok_iff.mp h
    exact challenge_eq_ok_iff.mpr ⟨tasks, hlisted, fun t ht => grown rfl t (hcontains t ht), rfl⟩
  · rwa [body_of_ne_challenge hkind registered' registered]

theorem compile_mono {kind : Kind} {registered registered' : Registry} {builtAt : UInt64}
    {source : Json} {a : Artifact} (h : compile kind registered builtAt source = .ok a)
    (grown : kind = .challenge → ∀ t : VersionedId, registered.contains (t.withKind .task) = true →
      registered'.contains (t.withKind .task) = true) (builtAt' : UInt64) :
    compile kind registered' builtAt' source = .ok (a.stamped builtAt') := by
  obtain ⟨d, c, hd, hc, rfl⟩ := compile_eq_ok_iff.mp h
  exact compile_eq_ok_iff.mpr ⟨d, c, hd, Compilation.body_mono hc grown, rfl⟩

/-- An artifact is built at the time of its build. -/
theorem stamped_of_compile {kind : Kind} {registered : Registry} {builtAt : UInt64}
    {source : Json} {a : Artifact} (h : compile kind registered builtAt source = .ok a) :
    a.stamped builtAt = a := by
  have hagain := compile_mono h (fun _ _ => id) builtAt
  exact Except.ok.inj (hagain.symm.trans h)

/-! ## Libraries -/

namespace Library

variable {l l' : Library} {builtAt : UInt64}

theorem Parsed.of_sublist (parsed : l'.Parsed) (sub : l.loaded.Sublist l'.loaded) : l.Parsed :=
  fun u hu => parsed u (sub.subset hu)

section Extension

variable (parsed : l'.Parsed) (sub : l.loaded.Sublist l'.loaded) (builtAt' : UInt64)

include parsed sub

/-- A document that compiles still compiles, to the same artifact. -/
theorem Parsed.outcome_of_sublist {u : SourceUnit} {a : Artifact}
    (h : l.outcome builtAt u = .ok a) :
    l'.outcome builtAt' u = .ok (a.stamped builtAt') := by
  refine compile_mono h (fun _ t => ?_) builtAt'
  rw [(parsed.of_sublist sub).contains_tasks, parsed.contains_tasks]
  rintro ⟨v, hv, href, b, hb⟩
  -- the task itself compiles whatever is registered, so this does not go round in circles
  refine ⟨v, sub.subset hv, href, b.stamped builtAt', compile_mono hb (fun hkind => ?_) builtAt'⟩
  exact absurd (hkind.symm.trans (congrArg Reference.kind href)) nofun

/-- Where every document has a reference of its own, what is registered stays registered. -/
theorem Parsed.extends_of_sublist (distinct : (l'.loaded.map SourceUnit.reference).Nodup) :
    (compileLibrary builtAt l .empty).context.symbols.Extends (·.stamped builtAt')
      (compileLibrary builtAt' l' .empty).context.symbols := by
  intro r a hfind
  have indexed := (LibraryResult.assembled_compileLibrary builtAt l).indexed
  obtain ⟨u, hu, hout⟩ :=
    (parsed.of_sublist sub).exists_unit (Context.resolve_eq_ok_iff.mpr hfind)
  have href : u.reference = r := by
    rw [← indexed.reference_eq r a hfind, (parsed.of_sublist sub).reference_outcome hu hout]
  obtain ⟨before, after, hloaded⟩ := List.append_of_mem (sub.subset hu)
  apply Context.resolve_eq_ok_iff.mp
  refine (parsed.accounts.resolve_eq_ok_iff r _).mpr ⟨before, u, after, hloaded, href,
    parsed.outcome_of_sublist sub builtAt' hout, fun v hv hvr => ?_⟩
  rw [hloaded, List.map_append, List.map_cons, List.nodup_append, List.nodup_cons] at distinct
  exact absurd (List.mem_map.mpr ⟨v, hv, hvr.trans href.symm⟩) distinct.2.1.1

/-- A closure without errors stays as it was. -/
theorem Parsed.closure_of_sublist (distinct : (l'.loaded.map SourceUnit.reference).Nodup)
    {root : Reference} (success : (l.closure builtAt root).isSuccess = true) :
    l'.closure builtAt' root = (l.closure builtAt root).stamped builtAt' :=
  Outcome.ofRoot_renew (LibraryResult.assembled_compileLibrary builtAt l).freeze
    (LibraryResult.assembled_compileLibrary builtAt' l').freeze rfl rfl
    (parsed.extends_of_sublist sub builtAt' distinct) (fun _ => rfl) success

end Extension

theorem stamped_closure (builtAt : UInt64) (l : Library) (root : Reference) :
    (l.closure builtAt root).stamped builtAt = l.closure builtAt root := by
  have hself : ∀ a ∈ (l.closure builtAt root).reached, a.stamped builtAt = a := by
    intro a ha
    obtain ⟨u, -, registered, hcompile⟩ := exists_unit_of_reached ha
    exact stamped_of_compile hcompile
  rw [Outcome.stamped, List.map_congr_left hself, List.map_id']

end Library

/-! ## Builds -/

/-- A build that gets through all its stages is completed. -/
theorem build_of_emit {tree tree' : FileTree} {builtAt : UInt64} {l : Library} {root : Reference}
    {output path : String} (output_ok : outputFault? tree output = none)
    (valid : ∀ u ∈ l.loaded, Validation.findings u = [])
    (success : (l.closure builtAt root).isSuccess = true)
    (h : emit tree output (l.closure builtAt root) = (tree', .ok path)) :
    build tree builtAt l root output = (Report.written builtAt l root path, tree') := by
  apply build_cases (P := fun x => x = (Report.written builtAt l root path, tree'))
  case refused => exact fun e hfault => absurd (output_ok.symm.trans hfault) nofun
  case invalid =>
    intro hfound
    rw [Library.any_isError_eq_false_iff.mpr valid] at hfound
    cases hfound
  case missing => exact fun failure => absurd (success.symm.trans failure) nofun
  case unwritten => exact fun made e _ _ _ hemit => absurd (h.symm.trans hemit) nofun
  case written =>
    intro made path' _ _ _ hemit
    cases h.symm.trans hemit
    rfl

/-- Documents with references of their own that pass validation can be added to a library anywhere:
a build that was completed without them is completed with them, reaches as many artifacts, and
writes an archive with the same entries, whose texts are the same but for the build time. At the
same time it leaves the same file tree. -/
theorem build_extended {l l' : Library} (parsed : l'.Parsed) (sub : l.loaded.Sublist l'.loaded)
    (distinct : (l'.loaded.map SourceUnit.reference).Nodup)
    (valid : ∀ u ∈ l'.loaded, u ∉ l.loaded → Validation.findings u = [])
    {tree tree' : FileTree} {builtAt : UInt64} {root : Reference} {output : String}
    {report : Report} (h : build tree builtAt l root output = (report, tree'))
    (completed : report.state = .completed) (builtAt' : UInt64) :
    ∃ report' tree'' path es es', build tree builtAt' l' root output = (report', tree'') ∧
      report'.state = .completed ∧ report'.reachable = report.reachable ∧
      report.archive = some path ∧ report'.archive = some path ∧
      tree'.get path = .ok (.file (.archive es)) ∧ tree''.get path = .ok (.file (.archive es')) ∧
      List.Forall₂ (Entry.SameButTime builtAt') es es' ∧ (builtAt' = builtAt → tree'' = tree') := by
  obtain ⟨output_ok, valid₀, success, path, rfl, hemit⟩ := build_eq_completed h completed
  have closure := l.isClosure_closure builtAt root
  have hclosure := parsed.closure_of_sublist sub builtAt' distinct success
  obtain ⟨tree'', es, es', hemit', hget, hget', hsame⟩ :=
    emit_stamped closure.reached_nodup hemit builtAt'
  rw [← hclosure] at hemit'
  have valid' : ∀ u ∈ l'.loaded, Validation.findings u = [] := by
    intro u hu
    by_cases hold : u ∈ l.loaded
    · exact valid₀ u hold
    · exact valid u hu hold
  have success' : (l'.closure builtAt' root).isSuccess = true := by
    rw [hclosure, Outcome.isSuccess_stamped, success]
  refine ⟨Report.written builtAt' l' root path, tree'', path, es, es',
    build_of_emit output_ok valid' success' hemit', rfl, ?_, rfl, rfl, hget, hget', hsame, ?_⟩
  · have hreached : (l'.closure builtAt' root).reached.length =
        (l.closure builtAt root).reached.length := by
      rw [hclosure, Outcome.stamped, List.length_map]
    exact hreached
  · rintro rfl
    rw [hclosure, Library.stamped_closure, hemit] at hemit'
    exact (Prod.mk.inj hemit').1.symm

/-- The check for adults, and a challenge whose task is missing. -/
def auditLibrary : Library :=
  ⟨Library.readDocument .challenge "audit" [("tasks", .arr [.obj [("id", .str "spare")]])] ::
    adultLibrary.loaded⟩

/-- The missing task, of a ruleset that is missing, and another challenge whose task is missing. -/
def spareLibrary : Library :=
  ⟨Library.readDocument .task "spare" [("rulesetRef", .obj [("id", .str "none")]),
      ("resultType", .str "BOOLEAN")] ::
    (auditLibrary.loaded ++
      [Library.readDocument .challenge "exit" [("tasks", .arr [.obj [("id", .str "gone")]])]])⟩

theorem parsed_spareLibrary : spareLibrary.Parsed := by
  simp only [Library.Parsed, spareLibrary, auditLibrary, adultLibrary, List.cons_append,
    List.nil_append, List.forall_mem_cons]
  exact ⟨rfl, rfl, rfl, rfl, rfl, rfl, rfl, by simp⟩

theorem build_extended_spareLibrary :
    let built := build .empty 5 auditLibrary ⟨.challenge, "entry", 1⟩ "out"
    let extended := build .empty 7 spareLibrary ⟨.challenge, "entry", 1⟩ "out"
    spareLibrary.Parsed ∧ auditLibrary.loaded.Sublist spareLibrary.loaded ∧
      (spareLibrary.loaded.map SourceUnit.reference).Nodup ∧
      (∀ u ∈ spareLibrary.loaded, Validation.findings u = []) ∧
      built.1.state = .completed ∧ extended.1.state = .completed ∧
      built.1.compiledTotal = 4 ∧ extended.1.compiledTotal = 6 ∧
      extended.1.reachable = built.1.reachable ∧
      ∃ path es es', built.2.get path = .ok (.file (.archive es)) ∧
        extended.2.get path = .ok (.file (.archive es')) ∧
        List.Forall₂ (Entry.SameButTime 7) es es' := by
  intro built extended
  have sub : auditLibrary.loaded.Sublist spareLibrary.loaded :=
    (List.sublist_append_left _ _).cons _
  have distinct : (spareLibrary.loaded.map SourceUnit.reference).Nodup := by decide +kernel
  have valid : ∀ u ∈ spareLibrary.loaded, Validation.findings u = [] :=
    Library.any_isError_eq_false_iff.mp (by decide +kernel)
  have completed : built.1.state = .completed := by decide +kernel
  obtain ⟨report', tree'', path, es, es', hbuild, completed', hreachable, -, -, hget, hget', hsame,
      -⟩ :=
    build_extended parsed_spareLibrary sub distinct (fun u hu _ => valid u hu) (Prod.eta built).symm
      completed 7
  obtain rfl : report' = extended.1 := congrArg Prod.fst hbuild.symm
  obtain rfl : tree'' = extended.2 := congrArg Prod.snd hbuild.symm
  exact ⟨parsed_spareLibrary, sub, distinct, valid, completed, completed', by decide +kernel,
    by decide +kernel, hreachable, path, es, es', hget, hget', hsame⟩

end Verdict
