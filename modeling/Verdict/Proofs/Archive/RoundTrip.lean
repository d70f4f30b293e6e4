import Verdict.Proofs.Archive.Loading
import Verdict.Proofs.Closure.Exactness
import Verdict.Proofs.Compilation.Portable

/-!
# Emitted archives load

An archive that was emitted for a root is found where it was written, and loading it gives back what
the root reaches.
-/

namespace Verdict

open Results

/-- An artifact that was compiled from a document given as text, or read from an envelope. -/
inductive Artifact.FromText (a : Artifact) : Prop
  | compiled {kind : Kind} {registered : Registry} {builtAt : UInt64} {text : String}
      {source : Json} : Json.ofText text = .ok source →
      compile kind registered builtAt source = .ok a → FromText a
  | decoded {text : String} : Artifact.ofText text = .ok a → FromText a

theorem Artifact.FromText.portable {a : Artifact} (h : a.FromText) : a.Portable := by
  cases h with
  | compiled htext hcompile => exact portable_of_compile (Json.storable_of_ofText htext) hcompile
  | decoded htext => exact portable_of_ofText htext

/-- Whatever is portable is read from its own envelope; the fields of an evidence type may then be
in another order. -/
theorem Artifact.Portable.fromText {a : Artifact} (h : a.Portable) (hkind : a.kind ≠ .evidenceType) :
    a.FromText :=
  .decoded (h.settled hkind).ofText_pretty

/-! ## Where the archive stands -/

/-- The path of an archive ends in its file name, whatever the output directory is. Before that it
takes the steps of the output directory, perhaps without an empty one at the end. -/
theorem steps_archivePath (output : String) :
    ∃ dirs, FileTree.steps (archivePath output) = dirs ++ [archiveFile] ∧
      (output ≠ "" → FileTree.steps output = dirs ∨ FileTree.steps output = dirs ++ [""]) := by
  have hcut : ∀ cs cs' : List Char, (Text.segments '/' (cs ++ '/' :: cs')).map String.ofList =
      (Text.segments '/' cs).map String.ofList ++ (Text.segments '/' cs').map String.ofList := by
    intro cs cs'
    rw [Text.segments_append, List.map_append]
  have hfile : (Text.segments '/' archiveFile.toList).map String.ofList = [archiveFile] := by
    rw [Text.segments_of_not_mem (by decide), List.map_singleton, String.ofList_toList]
  unfold FileTree.steps archivePath FileTree.join
  split_ifs with halone hslash
  · refine ⟨[], by decide, fun hne => ?_⟩
    exact absurd halone (by simp [hne]; decide)
  · obtain ⟨front, hfront⟩ := List.getLast?_eq_some_iff.mp hslash
    refine ⟨(Text.segments '/' front).map String.ofList, ?_, fun _ => .inr ?_⟩
    · rw [String.toList_append, hfront, List.append_assoc, List.singleton_append, hcut, hfile]
    · rw [hfront, hcut]
      rfl
  · refine ⟨(Text.segments '/' output.toList).map String.ofList, ?_, fun _ => .inl rfl⟩
    rw [String.toList_append, String.toList_append, List.append_assoc, ← hfile, ← hcut]
    rfl

/-- An archive is emitted if it is packed, its directory is made, and it is put in place. -/
theorem emit_eq_ok_iff {tree tree' : FileTree} {output path : String} {o : Outcome} :
    emit tree output o = (tree', .ok path) ↔ path = archivePath output ∧
      ∃ es directory made, Emission.pack o = .ok es ∧ FileTree.readPath output = .ok directory ∧
        tree.makeDirectories directory = (made, none) ∧
        (FileTree.readPath path).bind (made.writeFile (.archive es)) = .ok tree' := by
  constructor
  · intro h
    unfold emit at h
    split at h
    · cases h
    · cases h
    case h_3 es directory hpack hread =>
      split at h
      · cases h
      case h_2 made hmake =>
        dsimp only at h
        split at h
        · cases h
        case h_2 written hwrite =>
          cases h
          exact ⟨rfl, es, directory, made, hpack, hread, hmake, hwrite⟩
  · rintro ⟨rfl, es, directory, made, hpack, hread, hmake, hwrite⟩
    simp only [emit, hpack, hread, hmake, hwrite]

/-- The emitted archive is found at its path. -/
theorem get_of_emit {tree tree' : FileTree} {output path : String} {o : Outcome}
    (h : emit tree output o = (tree', .ok path)) : path = archivePath output ∧
      ∃ es, Emission.pack o = .ok es ∧ tree'.get path = .ok (.file (.archive es)) := by
  obtain ⟨rfl, es, directory, made, hpack, -, -, hwrite⟩ := emit_eq_ok_iff.mp h
  obtain ⟨dirs, hsteps, -⟩ := steps_archivePath output
  exact ⟨rfl, es, hpack, FileTree.get_of_writeFile hsteps goesDown_archiveFile hwrite⟩

theorem load_of_emit {tree tree' : FileTree} {output path : String} {o : Outcome}
    (h : emit tree output o = (tree', .ok path)) : ∃ es, Emission.pack o = .ok es ∧
      LoadedArchive.load tree' path = LoadedArchive.ofEntries es := by
  obtain ⟨-, es, hpack, hget⟩ := get_of_emit h
  exact ⟨es, hpack, by rw [LoadedArchive.load, hget]; rfl⟩

/-- What was packed is loaded again, whenever nothing of it is lost in an envelope. -/
theorem exists_load_of_emit {tree tree' : FileTree} {output path : String} {o : Outcome}
    (distinct : (o.reached.map Artifact.reference).Nodup) (portable : ∀ a ∈ o.reached, a.Portable)
    (h : emit tree output o = (tree', .ok path)) :
    ∃ root loaded, o.find? o.root = some root ∧ root.kind = .challenge ∧
      LoadedArchive.load tree' path = .ok loaded ∧ loaded.Restores o.reached ∧
      loaded.header = ⟨root.id, root.version, root.metadata.compiledAt,
        root.metadata.compilerVersion⟩ := by
  obtain ⟨es, hpack, hload⟩ := load_of_emit h
  obtain ⟨-, valid, root, hroot, hkind, hpacked⟩ := Emission.pack_eq_ok hpack distinct
  have hmem := (Outcome.reference_of_find? hroot).1
  obtain ⟨loaded, hloaded, hrestores, hheader⟩ :=
    LoadedArchive.ofEntries_of_packed distinct valid portable hmem hkind hpacked
  exact ⟨root, loaded, hroot, hkind, hload.trans hloaded, hrestores, hheader⟩

/-- What was packed is loaded with the root of the outcome as its root challenge. -/
theorem exists_challenge_of_emit {tree tree' : FileTree} {output path : String} {o : Outcome}
    (distinct : (o.reached.map Artifact.reference).Nodup) (portable : ∀ a ∈ o.reached, a.Portable)
    (h : emit tree output o = (tree', .ok path)) :
    ∃ loaded c, LoadedArchive.load tree' path = .ok loaded ∧ loaded.Restores o.reached ∧
      loaded.root = o.root.versionedId ∧ loaded.challenge loaded.root = .ok c := by
  obtain ⟨a, loaded, hfind, hkind, hload, hrestores, hheader⟩ :=
    exists_load_of_emit distinct portable h
  obtain ⟨ha, href⟩ := Outcome.reference_of_find? hfind
  have hroot : loaded.root = a.reference.versionedId := by
    rw [LoadedArchive.root, hheader]
    rfl
  obtain ⟨c, hc⟩ := hrestores.exists_challenge ha hkind
  exact ⟨loaded, c, hload, hrestores, href ▸ hroot, hroot ▸ hc⟩

/-- An archive emitted for the closure of a root loads, holds the artifacts reached as they were and
no other, and is headed by the root. -/
theorem load_emit {c : Context} (assembled : c.Assembled) (frozen : c.phase = .frozen)
    (fromText : ∀ r a, c.resolve r = .ok a → a.FromText) (root : Reference)
    {tree tree' : FileTree} {output path : String}
    (emitted : emit tree output (Outcome.ofRoot c root) = (tree', .ok path)) :
    ∃ a loaded, (Outcome.ofRoot c root).find? root = some a ∧
      LoadedArchive.load tree' path = .ok loaded ∧
      loaded.Restores (Outcome.ofRoot c root).reached ∧
      loaded.header = ⟨root.id, root.version, a.metadata.compiledAt, a.metadata.compilerVersion⟩ := by
  have closure := Outcome.isClosure_ofRoot assembled frozen root
  have portable : ∀ a ∈ (Outcome.ofRoot c root).reached, a.Portable := by
    intro a ha
    exact (fromText _ a (closure.resolve_of_mem ha)).portable
  obtain ⟨a, loaded, hfind, -, hloaded, hrestores, hheader⟩ :=
    exists_load_of_emit closure.reached_nodup portable emitted
  have hroot : (Outcome.ofRoot c root).root = root := by
    rw [Outcome.ofRoot_of_frozen frozen]
  rw [hroot] at hfind
  obtain ⟨-, rfl⟩ := Outcome.reference_of_find? hfind
  exact ⟨a, loaded, hfind, hloaded, hrestores, hheader⟩

/-- A challenge with one task, its ruleset and its rule, and a rule that the challenge does not
reach. -/
def adultCheck : List Artifact :=
  let metadata : Metadata := ⟨compilerVersion, 5, ""⟩
  [⟨"adult", 1, metadata, [], .rule ⟨"age", ">=", .integer 18, "NUMERIC"⟩⟩,
    ⟨"child", 1, metadata, [], .rule ⟨"age", "<", .integer 18, "NUMERIC"⟩⟩,
    ⟨"ages", 2, metadata, [⟨.rule, "adult", 1⟩], .ruleset ⟨.ruleRef ⟨"adult", 1⟩⟩⟩,
    ⟨"check", 1, metadata, [⟨.ruleset, "ages", 2⟩], .task ⟨⟨"ages", 2⟩, .score, [], ""⟩⟩,
    ⟨"entry", 1, metadata, [⟨.task, "check", 1⟩], .challenge ⟨[⟨"check", 1⟩]⟩⟩]

theorem fromText_adultCheck : ∀ a ∈ adultCheck, a.FromText := by
  have hsmall : Scalar.fitsInt64 18 = true := by decide
  have hroot : Json.Storable payloadDepth
      (Ruleset.toJson ⟨.ruleRef ⟨"adult", 1⟩⟩) := by
    refine .obj (by simp) ?_
    simp only [List.forall_mem_singleton]
    exact Expression.storable_ruleRef _ _
  simp only [adultCheck, List.forall_mem_cons]
  refine ⟨?_, ?_, ?_, ?_, ?_, by simp⟩
  · exact Artifact.Portable.fromText (a := ⟨_, _, _, _, .rule _⟩) hsmall (by decide)
  · exact Artifact.Portable.fromText (a := ⟨_, _, _, _, .rule _⟩) hsmall (by decide)
  · exact Artifact.Portable.fromText (a := ⟨_, _, _, _, .ruleset _⟩) hroot (by decide)
  · exact Artifact.Portable.fromText (a := ⟨_, _, _, _, .task _⟩) trivial (by decide)
  · exact Artifact.Portable.fromText (a := ⟨_, _, _, _, .challenge _⟩) trivial (by decide)

/-- The closure of the challenge. -/
def adultCheckOutcome : Outcome :=
  .ofRoot ⟨.ofArtifacts adultCheck, .frozen⟩ ⟨.challenge, "entry", 1⟩

theorem emit_adultCheck :
    (emit .empty "out" adultCheckOutcome).2 = .ok "out/compilation_package.dar" := by
  decide +kernel

theorem load_emit_adultCheck :
    (∀ a ∈ adultCheck, a.FromText) ∧
      (emit .empty "out" adultCheckOutcome).2 = .ok "out/compilation_package.dar" ∧
      ∃ loaded, LoadedArchive.load (emit .empty "out" adultCheckOutcome).1
          "out/compilation_package.dar" = .ok loaded ∧
        loaded.size = 4 ∧ loaded.root = ⟨"entry", 1⟩ ∧ loaded.header.compiledAt = 5 := by
  have fromText : ∀ r a, Context.resolve ⟨.ofArtifacts adultCheck, .frozen⟩ r = .ok a →
      a.FromText := by
    intro r a ha
    rw [Context.resolve_eq_ok_iff, Registry.find?_ofArtifacts] at ha
    exact fromText_adultCheck a (List.mem_of_mem_filter (List.mem_of_getLast? ha))
  obtain ⟨a, loaded, hfind, hload, hrestores, hheader⟩ :=
    load_emit (Context.assembled_ofArtifacts adultCheck .frozen) rfl fromText
      ⟨.challenge, "entry", 1⟩ (Prod.ext rfl emit_adultCheck)
  refine ⟨fromText_adultCheck, emit_adultCheck, loaded, hload, ?_, ?_, ?_⟩
  · exact hrestores.size_eq.trans (by decide)
  · rw [LoadedArchive.root, hheader]
  · have htime : (adultCheckOutcome.find? ⟨.challenge, "entry", 1⟩).map
        (fun a => a.metadata.compiledAt) = some 5 := by decide +kernel
    rw [adultCheckOutcome, hfind] at htime
    rw [hheader]
    exact Option.some.inj htime

end Verdict
