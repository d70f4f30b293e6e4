import Verdict.Proofs.Archive.Refusal
import Verdict.Proofs.Build.Soundness

/-!
# What a report says

A report tells a completed build by its state, by its archive, and by the lack of errors. A build is
completed exactly if nothing stands in the way: a document that does not compile only adds a
warning, unless the root needs it. A build that has failed leaves the archive that was there.
-/

namespace Verdict

open Results

/-! ## Counts and warnings -/

namespace LibraryResult

/-- Some documents are compiled or warned about, and no more artifacts are registered than documents
compiled. -/
structure Tallied (r : LibraryResult) (n : ℕ) : Prop where
  total : r.compiled.length + r.warnings.length = n
  warning : ∀ d ∈ r.warnings, d.severity = .warning
  registered_le : r.context.symbols.size ≤ r.compiled.length

theorem size_register_le (registered : Registry) (a : Artifact) :
    (registered.register a).size ≤ registered.size + 1 := by
  rw [Registry.register, Table.size_eq_length_keys, Table.size_eq_length_keys, Table.keys_insert]
  split_ifs <;> simp

theorem tallied_start : (start .empty).Tallied 0 where
  total := rfl
  warning := by simp [start]
  registered_le := Nat.le_refl 0

theorem Tallied.add {r : LibraryResult} {n : ℕ} (h : r.Tallied n) (builtAt : UInt64)
    (u : SourceUnit) : (r.add builtAt u).Tallied (n + 1) := by
  have htotal := h.total
  have hregistered := h.registered_le
  unfold LibraryResult.add
  split
  case h_1 c hc =>
    obtain ⟨a, -, hregister⟩ := bind_eq_ok_iff.mp hc
    obtain ⟨-, rfl⟩ := Context.register_eq_ok_iff.mp hregister
    refine ⟨?_, h.warning, ?_⟩
    · dsimp only
      rw [List.length_append, List.length_singleton]
      omega
    · rw [List.length_append, List.length_singleton]
      exact (size_register_le _ a).trans (Nat.add_le_add_right hregistered 1)
  case h_2 =>
    refine ⟨?_, ?_, hregistered⟩
    · dsimp only
      rw [List.length_append, List.length_singleton]
      omega
    · intro d hd
      rcases List.mem_append.mp hd with hd | hd
      · exact h.warning d hd
      · rw [List.mem_singleton.mp hd]

theorem Tallied.foldl_add {r : LibraryResult} {n : ℕ} (h : r.Tallied n) (builtAt : UInt64)
    (us : List SourceUnit) : (us.foldl (LibraryResult.add builtAt) r).Tallied (n + us.length) := by
  induction us generalizing r n with
  | nil => exact h
  | cons u us ih =>
    rw [List.foldl_cons, List.length_cons, Nat.add_comm us.length, ← Nat.add_assoc]
    exact ih (h.add builtAt u)

theorem tallied_compileLibrary (builtAt : UInt64) (l : Library) :
    (compileLibrary builtAt l .empty).Tallied l.size := by
  have h := tallied_start.foldl_add builtAt l.units
  rwa [Nat.zero_add, l.units_perm.length_eq] at h

end LibraryResult

theorem Report.compiledTotal_eq (r : Report) : r.compiledTotal = (r.compiled.map (·.2)).sum := by
  rw [compiledTotal, List.sum_eq_foldl, List.foldl_map]

section Linked

variable (builtAt : UInt64) (l : Library) (root : Reference)

theorem Report.compiledTotal_linked : (linked builtAt l root).compiledTotal =
    (compileLibrary builtAt l .empty).compiled.length := by
  rw [compiledTotal_eq]
  exact Library.sum_countKinds _

/-- Every document is compiled or warned about. -/
theorem Report.total_linked : (linked builtAt l root).compiledTotal +
    (linked builtAt l root).diagnostics.length = l.size := by
  rw [compiledTotal_linked]
  exact (LibraryResult.tallied_compileLibrary builtAt l).total

theorem Report.errors_linked : (linked builtAt l root).errors = [] := by
  rw [errors, List.filter_eq_nil_iff]
  intro d hd
  have hwarning := (LibraryResult.tallied_compileLibrary builtAt l).warning d hd
  simp [Diagnostic.isError, hwarning]

/-- No more artifacts are reached than documents were compiled. -/
theorem Report.reachable_linked_le :
    (linked builtAt l root).reachable ≤ (linked builtAt l root).compiledTotal := by
  have closure := l.isClosure_closure builtAt root
  have hsub : (l.closure builtAt root).reached.Subperm
      (compileLibrary builtAt l .empty).context.symbols.values := by
    apply (List.Nodup.of_map _ closure.reached_nodup).subperm
    intro a ha
    exact Table.mem_values_of_find? (Context.resolve_eq_ok_iff.mp (closure.resolve_of_mem ha))
  have hregistered := (LibraryResult.tallied_compileLibrary builtAt l).registered_le
  rw [compiledTotal_linked]
  refine hsub.length_le.trans (le_trans (le_of_eq ?_) hregistered)
  rw [Table.values, List.length_map, Table.size]

end Linked

/-! ## What it takes to build -/

/-- The output directory can be written to: it is named, and no file has its name. -/
theorem outputFault?_eq_none_iff {tree : FileTree} {output : String} :
    outputFault? tree output = none ↔
      output ≠ "" ∧ ∀ content, tree.get output ≠ .ok (.file content) := by
  unfold outputFault?
  split_ifs with hempty
  · simp [hempty]
  · split
    case h_1 content hfile => simp [hfile]
    case h_2 hfile => simpa [hempty] using hfile

/-- Nothing stands in the way of the archive of a root. What does not compile is in the way only if
the root depends on it. -/
structure Buildable (tree : FileTree) (builtAt : UInt64) (l : Library) (root : Reference)
    (output : String) : Prop where
  output_ne : output ≠ ""
  not_file : ∀ content, tree.get output ≠ .ok (.file content)
  valid : ∀ u ∈ l.loaded, Validation.findings u = []
  challenge : root.kind = .challenge
  registered : (compileLibrary builtAt l .empty).context.contains root = true
  closed : ∀ r a, (compileLibrary builtAt l .empty).context.symbols.Reaches root r →
    (compileLibrary builtAt l .empty).context.resolve r = .ok a →
    ∀ d ∈ a.dependencies, (compileLibrary builtAt l .empty).context.contains d = true
  written : ∀ path fault,
    (emit tree output (l.closure builtAt root)).2 ≠ .error (.io path fault)

section Buildable

variable {tree tree' : FileTree} {builtAt : UInt64} {l : Library} {root : Reference}
  {output : String}

/-- The ids of compiled artifacts are valid. -/
theorem Library.validId_of_reached {a : Artifact} (ha : a ∈ (l.closure builtAt root).reached) :
    ValidId a.reference.id := by
  obtain ⟨u, -, registered, hcompile⟩ := exists_unit_of_reached ha
  exact validId_of_compile hcompile

theorem Library.exists_root (success : (l.closure builtAt root).isSuccess = true) :
    ∃ a, (l.closure builtAt root).find? root = some a :=
  Outcome.exists_root (LibraryResult.assembled_compileLibrary builtAt l).freeze success

/-- The closure of a challenge is emitted, unless the file system refuses. -/
theorem isIo_of_emit (success : (l.closure builtAt root).isSuccess = true)
    (challenge : root.kind = .challenge) {e : EmitError}
    (h : emit tree output (l.closure builtAt root) = (tree', .error e)) : e.IsIo := by
  obtain ⟨a, ha⟩ := Library.exists_root success
  have hkind : a.kind = .challenge := by
    rw [← challenge, ← (Outcome.reference_of_find? ha).2]
    rfl
  rcases emit_eq_error h with ⟨-, hpack | hio⟩ | ⟨hio, -⟩
  · exact Emission.pack_eq_error success ha hkind (fun _ => Library.validId_of_reached) hpack
  · exact hio
  · exact hio

/-- Only the closure of a challenge is emitted. -/
theorem challenge_of_emit {path : String}
    (h : emit tree output (l.closure builtAt root) = (tree', .ok path)) :
    root.kind = .challenge := by
  have closure := l.isClosure_closure builtAt root
  obtain ⟨-, es, hpack, -⟩ := get_of_emit h
  obtain ⟨-, -, a, ha, hkind, -⟩ := Emission.pack_eq_ok hpack closure.reached_nodup
  exact (congrArg Reference.kind (Outcome.reference_of_find? ha).2).symm.trans hkind

/-- A build that gets as far as its archive is one that nothing stands in the way of. -/
theorem buildable_of_emit (output_ok : outputFault? tree output = none)
    (valid : ∀ u ∈ l.loaded, Validation.findings u = [])
    (success : (l.closure builtAt root).isSuccess = true) {path : String}
    (h : emit tree output (l.closure builtAt root) = (tree', .ok path)) :
    Buildable tree builtAt l root output := by
  obtain ⟨output_ne, not_file⟩ := outputFault?_eq_none_iff.mp output_ok
  obtain ⟨registered, closed⟩ := (l.isClosure_closure builtAt root).isSuccess_iff_closed.mp success
  refine ⟨output_ne, not_file, valid, challenge_of_emit h, registered, closed, ?_⟩
  rw [h]
  exact fun _ _ => nofun

theorem Buildable.isSuccess (h : Buildable tree builtAt l root output) :
    (l.closure builtAt root).isSuccess = true :=
  (l.isClosure_closure builtAt root).isSuccess_iff_closed.mpr ⟨h.registered, h.closed⟩

/-- A build is completed exactly if nothing stands in its way. -/
theorem build_state_iff : (build tree builtAt l root output).1.state = .completed ↔
    Buildable tree builtAt l root output := by
  apply build_cases (P := fun x => x.1.state = .completed ↔ _)
  case refused =>
    intro e hfault
    refine iff_of_false nofun fun h => ?_
    rw [outputFault?_eq_none_iff.mpr ⟨h.output_ne, h.not_file⟩] at hfault
    cases hfault
  case invalid =>
    intro hfound
    refine iff_of_false nofun fun h => ?_
    rw [Library.any_isError_eq_false_iff.mpr h.valid] at hfound
    cases hfound
  case missing =>
    intro failure
    refine iff_of_false nofun fun h => ?_
    rw [h.isSuccess] at failure
    cases failure
  case unwritten =>
    intro tree' e _ _ success hemit
    refine iff_of_false nofun fun h => ?_
    obtain ⟨path, fault, rfl⟩ := isIo_of_emit success h.challenge hemit
    exact h.written path fault (by rw [hemit])
  case written =>
    intro tree' path output_ok valid success hemit
    exact iff_of_true rfl (buildable_of_emit output_ok valid success hemit)

end Buildable

/-! ## What a report says -/

/-- The states that a build can end in, with what goes with them. -/
inductive Report.Ended (r : Report) : Prop
  | completed : r.state = .completed → r.archive.isSome = true → r.errors = [] → Ended r
  | failed : r.state = .failed → r.archive = none → r.errors ≠ [] → Ended r

theorem Report.Ended.state_ne_running {r : Report} (h : r.Ended) : r.state ≠ .running := by
  cases h with
  | completed hstate _ _ => rw [hstate]; exact nofun
  | failed hstate _ _ => rw [hstate]; exact nofun

theorem Report.Ended.completed_iff_archive {r : Report} (h : r.Ended) :
    r.state = .completed ↔ r.archive.isSome = true := by
  cases h with
  | completed hstate harchive _ => exact iff_of_true hstate harchive
  | failed hstate harchive _ =>
    rw [hstate, harchive]
    exact iff_of_false nofun nofun

theorem Report.Ended.completed_iff_errors {r : Report} (h : r.Ended) :
    r.state = .completed ↔ r.errors = [] := by
  cases h with
  | completed hstate _ herrors => exact iff_of_true hstate herrors
  | failed hstate _ herrors =>
    rw [hstate]
    exact iff_of_false nofun herrors

theorem Report.errors_ne_nil {r : Report} {d : Diagnostic} (hd : d ∈ r.diagnostics)
    (error : d.isError = true) : r.errors ≠ [] :=
  List.ne_nil_of_mem (List.mem_filter.mpr ⟨hd, error⟩)

theorem Report.ended_fail {r : Report} (h : r.archive = none) {ds : List Diagnostic}
    (hds : ∃ d ∈ ds, d.isError = true) : (r.fail ds).Ended := by
  obtain ⟨d, hd, error⟩ := hds
  exact .failed rfl h (errors_ne_nil (List.mem_append_right _ hd) error)

theorem ended_build (tree : FileTree) (builtAt : UInt64) (l : Library) (root : Reference)
    (output : String) : (build tree builtAt l root output).1.Ended := by
  apply build_cases (P := fun x => x.1.Ended)
  case refused => exact fun e _ => Report.ended_fail rfl ⟨_, List.mem_singleton_self _, rfl⟩
  case invalid => exact fun hfound => Report.ended_fail rfl (List.any_eq_true.mp hfound)
  case missing =>
    intro failure
    apply Report.ended_fail rfl
    obtain ⟨e, he⟩ := List.exists_mem_of_ne_nil _ (List.isEmpty_eq_false_iff.mp failure)
    exact ⟨_, List.mem_map_of_mem he, rfl⟩
  case unwritten =>
    exact fun _ e _ _ _ _ => Report.ended_fail rfl ⟨_, List.mem_singleton_self _, rfl⟩
  case written =>
    exact fun _ _ _ _ _ _ => .completed rfl rfl (Report.errors_linked builtAt l root)

/-- The file at a path is an archive whose manifest, and there is one, lists `n` files. -/
def FileTree.HoldsArchive (tree : FileTree) (path : String) (n : ℕ) : Prop :=
  ∃ es m, tree.get path = .ok (.file (.archive es)) ∧ (∃ e ∈ es, e.HoldsManifest m) ∧
    (∀ e ∈ es, e.name = manifestFile → e.HoldsManifest m) ∧ m.files.length = n

theorem holdsArchive_of_emit {tree tree' : FileTree} {output path : String} {o : Outcome}
    (distinct : (o.reached.map Artifact.reference).Nodup)
    (h : emit tree output o = (tree', .ok path)) : tree'.HoldsArchive path o.reached.length := by
  obtain ⟨-, es, hpack, hget⟩ := get_of_emit h
  obtain ⟨-, valid, root, -, -, hpacked⟩ := Emission.pack_eq_ok hpack distinct
  have hholds := Emission.holdsManifest_manifestEntry
    (Emission.manifest root (o.reached.map fun a => a.reference.entryPath))
  refine ⟨es, _, hget, ⟨_, hpacked.manifest_mem, hholds⟩, ?_, ?_⟩
  · intro e he hname
    rw [hpacked.eq_of_name valid distinct e he _ hpacked.manifest_mem hname]
    exact hholds
  · rw [Emission.manifest, List.length_mergeSort, List.length_map]

/-- What a completed build reports, and where it leaves the archive. -/
structure Report.Delivered (builtAt : UInt64) (l : Library) (output : String) (r : Report)
    (tree' : FileTree) : Prop where
  diagnostics_eq : r.diagnostics = (compileLibrary builtAt l .empty).warnings
  /-- Every document is compiled or warned about. -/
  total : r.compiledTotal + r.diagnostics.length = l.size
  reachable_pos : 1 ≤ r.reachable
  reachable_le : r.reachable ≤ r.compiledTotal
  archive_eq : r.archive = some (archivePath output)
  manifest : tree'.HoldsArchive (archivePath output) r.reachable

theorem delivered_of_emit {tree tree' : FileTree} {builtAt : UInt64} {l : Library}
    {root : Reference} {output path : String} (success : (l.closure builtAt root).isSuccess = true)
    (h : emit tree output (l.closure builtAt root) = (tree', .ok path)) :
    (Report.written builtAt l root path).Delivered builtAt l output tree' where
  diagnostics_eq := rfl
  total := Report.total_linked builtAt l root
  reachable_pos := by
    obtain ⟨a, ha⟩ := Library.exists_root success
    exact List.length_pos_of_mem (Outcome.reference_of_find? ha).1
  reachable_le := Report.reachable_linked_le builtAt l root
  archive_eq := congrArg some (get_of_emit h).1
  manifest := by
    have hholds := holdsArchive_of_emit (l.isClosure_closure builtAt root).reached_nodup h
    rwa [(get_of_emit h).1] at hholds

section Build

variable (tree : FileTree) (builtAt : UInt64) (l : Library) (root : Reference) (output : String)

theorem delivered_build : (build tree builtAt l root output).1.state = .completed →
    (build tree builtAt l root output).1.Delivered builtAt l output
      (build tree builtAt l root output).2 := by
  apply build_cases (P := fun x => x.1.state = .completed → x.1.Delivered builtAt l output x.2)
  case refused => exact fun _ _ => nofun
  case invalid | missing => exact fun _ => nofun
  case unwritten => exact fun _ _ _ _ _ _ => nofun
  case written => exact fun _ _ _ _ success hemit _ => delivered_of_emit success hemit

theorem undisturbed_build : (build tree builtAt l root output).1.state = .failed →
    tree.Undisturbed (build tree builtAt l root output).2 output := by
  apply build_cases (P := fun x => x.1.state = .failed → tree.Undisturbed x.2 output)
  case refused => exact fun _ _ _ => .refl tree output
  case invalid | missing => exact fun _ _ => .refl tree output
  case unwritten =>
    intro tree' e output_ok _ _ hemit _
    exact undisturbed_of_emit (outputFault?_eq_none_iff.mp output_ok).1 hemit
  case written => exact fun _ _ _ _ _ _ => nofun

end Build

/-- A build ends, and its report is completed exactly if an archive is written and there is no
error, which is exactly if nothing stood in its way. A completed report counts what is in the
archive. A build that has failed has changed no file, and nothing at all where something stood at
the path of the archive; where nothing stood nothing stands, unless the output directory goes up. -/
theorem build_report {tree tree' : FileTree} {builtAt : UInt64} {l : Library} {root : Reference}
    {output : String} {report : Report}
    (h : build tree builtAt l root output = (report, tree')) :
    report.state ≠ .running ∧
      (report.state = .completed ↔ report.archive.isSome = true) ∧
      (report.state = .completed ↔ report.errors = []) ∧
      (report.state = .completed ↔ Buildable tree builtAt l root output) ∧
      (report.state = .completed → report.Delivered builtAt l output tree') ∧
      (report.state = .failed → tree.Undisturbed tree' output) := by
  obtain ⟨rfl, rfl⟩ := Prod.mk.inj (h.symm.trans (Prod.eta _).symm)
  have ended := ended_build tree builtAt l root output
  exact ⟨ended.state_ne_running, ended.completed_iff_archive, ended.completed_iff_errors,
    build_state_iff, delivered_build tree builtAt l root output,
    undisturbed_build tree builtAt l root output⟩

/-- An archive is built, and a build for a challenge that does not exist leaves it alone. -/
theorem build_report_adultLibrary :
    let built := build .empty 5 adultLibrary ⟨.challenge, "entry", 1⟩ "out"
    let rebuilt := build built.2 6 adultLibrary ⟨.challenge, "exit", 1⟩ "out"
    built.1.state = .completed ∧ rebuilt.1.state = .failed ∧ built.1.errors = [] ∧
      built.2.HoldsArchive "out/compilation_package.dar" built.1.reachable ∧
      rebuilt.1.errors ≠ [] ∧ rebuilt.2 = built.2 := by
  intro built rebuilt
  have completed : built.1.state = .completed := completed_adultLibrary
  have failed : rebuilt.1.state = .failed := by decide +kernel
  obtain ⟨-, -, herrors, -, hdelivered, -⟩ := build_report (Prod.eta built).symm
  obtain ⟨-, -, herrors', -, -, hundisturbed⟩ := build_report (Prod.eta rebuilt).symm
  have hholds := (hdelivered completed).manifest
  obtain ⟨es, m, hget, -⟩ := id hholds
  refine ⟨completed, failed, herrors.mp completed, hholds, ?_, (hundisturbed failed).kept _ hget⟩
  intro hnone
  exact absurd ((herrors'.mpr hnone).symm.trans failed) (by decide)

/-- With an output directory that goes up, a directory can come to stand at the path of the archive
though the build has failed. -/
theorem not_forall_undisturbed : ¬ ∀ (tree : FileTree) (builtAt : UInt64) (l : Library)
    (root : Reference) (output : String), (build tree builtAt l root output).1.state = .failed →
      ∀ node, tree.get (archivePath output) = .ok node ↔
        (build tree builtAt l root output).2.get (archivePath output) = .ok node := by
  intro h
  let tree := FileTree.directory [("d", .directory [("compilation_package.dar", .directory [])])]
  let output := "d/compilation_package.dar/x/../.."
  let built := build tree 5 adultLibrary ⟨.challenge, "entry", 1⟩ output
  have failed : built.1.state = .failed := by decide +kernel
  have nothing : (tree.get (archivePath output)).isOk = false := by decide +kernel
  have something : (built.2.get (archivePath output)).isOk = true := by decide +kernel
  cases hnode : built.2.get (archivePath output) with
  | error fault =>
    rw [hnode] at something
    cases something
  | ok node =>
    rw [(h tree 5 adultLibrary _ output failed node).mpr hnode] at nothing
    cases nothing

end Verdict
