import Verdict.Proofs.Archive.RoundTrip
import Verdict.Proofs.FileTree.Paving

/-!
# Emissions that fail

The closure of a challenge is packed unless the file system refuses. An emission that fails has
changed no file. What stands at the path of the archive is then left alone, and so is everything
else; where nothing stands there is nothing afterwards, unless the output directory goes up.
-/

namespace Verdict

open FileTree (GoesDown)
open Results

/-! ## Why an archive is not packed -/

namespace EmitError

/-- The file system has refused. -/
def IsIo (e : EmitError) : Prop := ∃ path fault, e = .io path fault

end EmitError

namespace Emission

theorem stageFile_eq_error {path text : String} {files : FileTree} {e : EmitError}
    (h : stageFile path text files = .error e) : e.IsIo := by
  rcases bind_eq_error_iff.mp h with hread | ⟨names, -, h⟩
  · obtain ⟨fault, -, rfl⟩ := mapError_eq_error_iff.mp hread
    exact ⟨path, fault, rfl⟩
  · split at h
    case h_1 fault _ =>
      cases h
      exact ⟨path, fault, rfl⟩
    case h_2 =>
      obtain ⟨fault, -, rfl⟩ := mapError_eq_error_iff.mp h
      exact ⟨path, fault, rfl⟩

theorem stage_eq_error {s : Staging} {a : Artifact} {e : EmitError} (h : stage s a = .error e) :
    e = .unsafePath a.reference.entryPath ∧ ¬ValidId a.reference.id ∨ e.IsIo := by
  unfold stage at h
  dsimp only at h
  rw [Reference.ofEntryPath?_entryPath] at h
  split_ifs at h with valid
  · rcases bind_eq_error_iff.mp h with hfile | ⟨files, -, h⟩
    · exact .inr (stageFile_eq_error hfile)
    · cases h
  · cases h
    exact .inl ⟨rfl, valid⟩

/-- The ways in which an outcome is not packed, with what each takes. -/
inductive Refuses (o : Outcome) : EmitError → Prop
  | unsuccessful : o.isSuccess = false → Refuses o (.unsuccessful o.errors.length)
  | nothingToEmit : o.isSuccess = true → o.reached = [] → Refuses o .nothingToEmit
  | rootNotReachable : o.isSuccess = true → o.find? o.root = none →
      Refuses o (.rootNotReachable o.root)
  | rootNotChallenge {root : Artifact} : o.find? o.root = some root → root.kind ≠ .challenge →
      Refuses o (.rootNotChallenge o.root)
  | unsafePath {a : Artifact} : a ∈ o.reached → ¬ValidId a.reference.id →
      Refuses o (.unsafePath a.reference.entryPath)
  | io (path : String) (fault : FileFault) : Refuses o (.io path fault)

theorem refuses_of_pack {o : Outcome} {e : EmitError} (h : pack o = .error e) : Refuses o e := by
  unfold pack at h
  dsimp only at h
  split at h
  case isTrue hsuccess =>
    cases h
    exact .unsuccessful (by simpa using hsuccess)
  case isFalse hsuccess =>
    replace hsuccess : o.isSuccess = true := by simpa using hsuccess
    split at h
    case isTrue hreached =>
      cases h
      exact .nothingToEmit hsuccess (List.isEmpty_iff.mp hreached)
    case isFalse hreached =>
      split at h
      case h_2 hroot =>
        cases h
        exact .rootNotReachable hsuccess (Option.eq_none_iff_forall_ne_some.mpr hroot)
      case h_1 root hroot =>
        split at h
        case isTrue hkind =>
          cases h
          exact .rootNotChallenge hroot hkind
        case isFalse hkind =>
          have hio : e.IsIo → Refuses o e := by
            rintro ⟨path, fault, rfl⟩
            exact .io path fault
          rcases bind_eq_error_iff.mp h with hstaged | ⟨staging, -, h⟩
          · obtain ⟨s, a, ha, hstage⟩ := exists_of_foldlM_eq_error hstaged
            rcases stage_eq_error hstage with ⟨rfl, valid⟩ | hfile
            · exact .unsafePath ha valid
            · exact hio hfile
          · rcases bind_eq_error_iff.mp h with hfile | ⟨files, -, h⟩
            · exact hio (stageFile_eq_error hfile)
            · cases h

/-- A closure with a challenge for its root and valid ids throughout is packed, unless the file
system refuses. -/
theorem pack_eq_error {o : Outcome} (success : o.isSuccess = true) {root : Artifact}
    (hroot : o.find? o.root = some root) (hkind : root.kind = .challenge)
    (valid : ∀ a ∈ o.reached, ValidId a.reference.id) {e : EmitError} (h : pack o = .error e) :
    e.IsIo := by
  cases refuses_of_pack h with
  | unsuccessful hfailed => rw [success] at hfailed; cases hfailed
  | nothingToEmit _ hnone =>
    have hmem := (Outcome.reference_of_find? hroot).1
    rw [hnone] at hmem
    cases hmem
  | rootNotReachable _ hnone => rw [hroot] at hnone; cases hnone
  | rootNotChallenge hroot' hkind' =>
    cases hroot.symm.trans hroot'
    exact absurd hkind hkind'
  | unsafePath ha hid => exact absurd (valid _ ha) hid
  | io path fault => exact ⟨path, fault, rfl⟩

end Emission

/-- The ways in which an archive is not emitted: it is not packed, the path of the output directory
cannot be read, the directory cannot be made, or the file cannot be put in place. -/
theorem emit_eq_error {tree tree' : FileTree} {output : String} {o : Outcome} {e : EmitError}
    (h : emit tree output o = (tree', .error e)) :
    (tree' = tree ∧ (Emission.pack o = .error e ∨ e.IsIo)) ∨
      e.IsIo ∧ ∃ es, Emission.pack o = .ok es ∧
        FileTree.readPath output = .ok (FileTree.steps output) ∧
        ((∃ fault, tree.makeDirectories (FileTree.steps output) = (tree', some fault)) ∨
          tree.makeDirectories (FileTree.steps output) = (tree', none) ∧ ∃ fault,
            (FileTree.readPath (archivePath output)).bind (tree'.writeFile (.archive es)) =
              .error fault) := by
  unfold emit at h
  split at h
  case h_1 hpack =>
    cases h
    exact .inl ⟨rfl, .inl hpack⟩
  case h_2 fault _ _ =>
    cases h
    exact .inl ⟨rfl, .inr ⟨output, fault, rfl⟩⟩
  case h_3 es directory hpack hread =>
    obtain rfl := FileTree.readPath_eq_ok hread
    split at h
    case h_1 made fault hmake =>
      cases h
      exact .inr ⟨⟨output, fault, rfl⟩, es, hpack, hread, .inl ⟨fault, hmake⟩⟩
    case h_2 made hmake =>
      dsimp only at h
      split at h
      case h_1 fault hwrite =>
        cases h
        exact .inr ⟨⟨_, fault, rfl⟩, es, hpack, hread, .inr ⟨hmake, fault, hwrite⟩⟩
      case h_2 => cases h

/-! ## What is left behind -/

section Place

variable {t : FileTree} {output : String} {node : FileTree}

/-- Whatever stands at the path of the archive stands in the output directory. -/
theorem hasDirectory_of_get (hne : output ≠ "") (h : t.get (archivePath output) = .ok node) :
    t.hasDirectory (FileTree.steps output) = true := by
  obtain ⟨-, steps, place, hread, hlocate, -⟩ := FileTree.get_eq_ok_iff.mp h
  obtain ⟨dirs, hsteps, houtput⟩ := steps_archivePath output
  rw [FileTree.readPath_eq_ok hread, hsteps, FileTree.locate, List.foldlM_append] at hlocate
  obtain ⟨parent, hparent, hlast⟩ := bind_eq_ok_iff.mp hlocate
  rw [List.foldlM_cons] at hlast
  obtain ⟨next, hnext, -⟩ := bind_eq_ok_iff.mp hlast
  obtain ⟨cs, hcs⟩ := FileTree.isDirectory_of_step hnext
  rcases houtput hne with heq | heq
  · exact FileTree.hasDirectory_iff.mpr ⟨parent, cs, heq ▸ hparent, hcs⟩
  · refine FileTree.hasDirectory_iff.mpr ⟨parent, cs, ?_, hcs⟩
    rw [heq, FileTree.locate, List.foldlM_append]
    refine bind_of_ok hparent ?_
    rw [List.foldlM_cons]
    exact bind_of_ok (FileTree.step_of_directory (.inl rfl) hcs) rfl

/-- A file that stands at the path of the archive can be replaced. -/
theorem exists_writeFile_of_get {c : Content} (h : t.get (archivePath output) = .ok (.file c))
    (content : Content) :
    ∃ t', (FileTree.readPath (archivePath output)).bind (t.writeFile content) = .ok t' := by
  obtain ⟨-, steps, place, hread, hlocate, hfollow⟩ := FileTree.get_eq_ok_iff.mp h
  obtain ⟨dirs, hsteps, -⟩ := steps_archivePath output
  obtain rfl := FileTree.readPath_eq_ok hread
  rw [hsteps] at hread hlocate
  rw [FileTree.locate, List.foldlM_append] at hlocate
  obtain ⟨parent, hparent, hlast⟩ := bind_eq_ok_iff.mp hlocate
  rw [List.foldlM_cons] at hlast
  obtain ⟨next, hnext, hnil⟩ := bind_eq_ok_iff.mp hlast
  cases hnil
  have hfind : t.find? place = some (.file c) := by
    rw [FileTree.find?, hfollow]
    rfl
  have hslot : t.slot (dirs ++ [archiveFile]) = .ok (place, some (.file c)) := by
    rw [FileTree.slot, List.getLast?_concat]
    dsimp only
    rw [List.dropLast_concat, FileTree.locate, hparent, ok_bind, hnext]
    dsimp only
    rw [hfind]
    rfl
  refine ⟨_, bind_of_ok hread (bind_of_ok hslot rfl)⟩

/-- The archive stands below where the output directory says, under its file name. -/
theorem exists_steps_archivePath (output : String) : ∃ dirs,
    FileTree.steps (archivePath output) = dirs ++ [archiveFile] ∧
      FileTree.moves dirs = FileTree.moves (FileTree.steps output) ∧
      (".." ∉ FileTree.steps output → ".." ∉ dirs) := by
  obtain ⟨dirs, hsteps, houtput⟩ := steps_archivePath output
  refine ⟨dirs, hsteps, ?_⟩
  by_cases hne : output = ""
  · subst hne
    obtain rfl : dirs = [] := by
      have hlen := congrArg List.length hsteps
      rw [show FileTree.steps (archivePath "") = [archiveFile] by decide] at hlen
      simpa using hlen
    exact ⟨by decide, fun _ => by simp⟩
  · rcases houtput hne with heq | heq
    · exact ⟨by rw [heq], fun hup => heq ▸ hup⟩
    · rw [heq]
      refine ⟨?_, fun hup hmem => hup (List.mem_append_left _ hmem)⟩
      rw [FileTree.moves_append, show FileTree.moves [""] = [] from rfl, List.append_nil]

/-- The place of the archive below an output directory that does not go up. -/
def archivePlace (output : String) : List String :=
  FileTree.moves (FileTree.steps output) ++ [archiveFile]

theorem locate_archivePath (hup : ".." ∉ FileTree.steps output) {place : List String}
    (h : t.locate (FileTree.steps (archivePath output)) = .ok place) :
    place = archivePlace output := by
  obtain ⟨dirs, hsteps, hmoves, hdirs⟩ := exists_steps_archivePath output
  have hgoes : FileTree.moves [archiveFile] = [archiveFile] := by decide
  rw [hsteps] at h
  rw [FileTree.locate_of_no_up _ h, archivePlace, FileTree.moves_append, hmoves, hgoes]
  rw [List.mem_append, not_or]
  exact ⟨hdirs hup, by decide⟩

/-- When the output directory has been made, something stands at the path of the archive only if it
stood there before or the output directory goes up. -/
theorem eq_or_up_of_makeDirectories
    (h : (t.makeDirectories (FileTree.steps output)).1.get (archivePath output) = .ok node) :
    (t.makeDirectories (FileTree.steps output)).1 = t ∨ ".." ∈ FileTree.steps output := by
  refine or_iff_not_imp_right.mpr fun hup => ?_
  obtain ⟨-, steps, place, hread, hlocate, hfollow⟩ := FileTree.get_eq_ok_iff.mp h
  obtain rfl := FileTree.readPath_eq_ok hread
  obtain rfl := locate_archivePath hup hlocate
  refine (FileTree.makeDirectories_eq_or hup (List.cons_ne_nil archiveFile [])).resolve_right ?_
  change FileTree.occupant? _ (archivePlace output) ≠ none
  rw [FileTree.occupant?_of_follow hfollow]
  exact nofun

end Place

/-- What a failed emission leaves of a tree: no file is changed, what stands at the path of the
archive stands in a tree in which nothing is changed, and a directory comes to stand there only if
the output directory goes up. -/
structure FileTree.Undisturbed (tree tree' : FileTree) (output : String) : Prop where
  contentAt_eq : ∀ q, tree'.contentAt q = tree.contentAt q
  kept : ∀ node, tree.get (archivePath output) = .ok node → tree' = tree
  added : ∀ node, tree'.get (archivePath output) = .ok node → tree' = tree ∨
    node.isDirectory = true ∧ ".." ∈ FileTree.steps output

theorem FileTree.Undisturbed.refl (tree : FileTree) (output : String) :
    tree.Undisturbed tree output :=
  ⟨fun _ => rfl, fun _ _ => rfl, fun _ _ => .inl rfl⟩

theorem undisturbed_of_emit {tree tree' : FileTree} {output : String} (hne : output ≠ "")
    {o : Outcome} {e : EmitError} (h : emit tree output o = (tree', .error e)) :
    tree.Undisturbed tree' output := by
  have hcontent := FileTree.contentAt_makeDirectories tree (FileTree.steps output)
  have hkept : ∀ node, tree.get (archivePath output) = .ok node →
      tree.makeDirectories (FileTree.steps output) = (tree, none) := fun node hnode =>
    FileTree.makeDirectories_of_hasDirectory (hasDirectory_of_get hne hnode)
  rcases emit_eq_error h with
    ⟨rfl, -⟩ | ⟨-, es, -, -, ⟨fault, hmake⟩ | ⟨hmake, fault, hwrite⟩⟩
  · exact .refl tree' output
  · rw [hmake] at hcontent
    refine ⟨hcontent, fun node hnode => ?_, fun node hnode => ?_⟩
    · cases hmake.symm.trans (hkept node hnode)
    · have hfault := FileTree.hasDirectory_of_fault hmake
      rw [hasDirectory_of_get hne hnode] at hfault
      cases hfault
  · rw [hmake] at hcontent
    refine ⟨hcontent, fun node hnode => ?_, fun node hnode => ?_⟩
    · cases hmake.symm.trans (hkept node hnode)
      rfl
    · have hadded := @eq_or_up_of_makeDirectories tree output node
      rw [hmake] at hadded
      refine (hadded hnode).imp_right fun hup => ⟨?_, hup⟩
      -- a file that stood there could have been replaced
      cases node with
      | directory cs => rfl
      | file c =>
        obtain ⟨t', ht'⟩ := exists_writeFile_of_get hnode (.archive es)
        cases hwrite.symm.trans ht'

end Verdict
