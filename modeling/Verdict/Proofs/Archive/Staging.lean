import Verdict.Archive.Emission
import Verdict.Proofs.Artifact.EntryPath
import Verdict.Proofs.FileTree.Directories
import Verdict.Proofs.FileTree.Walk

/-!
# Staged files

Staging an artifact adds its envelope to the files, under the names of its path, and changes no other
file. So the entries of a packed archive are directories, the manifest, and one envelope for every
artifact.
-/

namespace Verdict

open FileTree (GoesDown Tidy)
open Results

/-! ## Paths -/

namespace Reference

theorem steps_entryPath {r : Reference} (h : ValidId r.id) :
    FileTree.steps r.entryPath = r.entryNames := by
  obtain ⟨-, hslash, -⟩ := validId_iff.mp h
  have hfile : '/' ∉ r.id.toList ++ entryEnding.toList := by
    rw [List.mem_append, not_or]
    exact ⟨hslash, by decide⟩
  rw [FileTree.steps, segments_entryPath, Text.segments_of_not_mem hfile, ← String.toList_append]
  simp only [List.map_cons, List.map_nil, String.ofList_toList]
  rfl

theorem goesDown_of_length {s : String} (h : 2 < s.length) : GoesDown s := by
  refine ⟨?_, ?_, ?_⟩
  · rintro rfl
    exact absurd h (by decide)
  · rintro rfl
    exact absurd h (by decide)
  · rintro rfl
    exact absurd h (by decide)

theorem goesDown_entryNames (r : Reference) : ∀ s ∈ r.entryNames, GoesDown s := by
  rw [entryNames]
  simp only [List.forall_mem_cons]
  refine ⟨?_, ?_, ?_, by simp⟩
  · apply goesDown_of_length
    cases r.kind <;> decide
  · have hdigits := Json.allDigits_toDigits r.version.toNat
    have hne : Nat.toDigits 10 r.version.toNat ≠ [] := Nat.toDigits_ne_nil
    rw [← toList_toString_nat] at hdigits hne
    refine ⟨?_, ?_, ?_⟩
    · intro hempty
      exact hne (by rw [hempty]; rfl)
    · intro hdot
      rw [hdot] at hdigits
      exact absurd (hdigits '.' (by simp)) (by decide)
    · intro hdots
      rw [hdots] at hdigits
      exact absurd (hdigits '.' (by simp)) (by decide)
  · apply goesDown_of_length
    rw [String.length_append, show entryEnding.length = 5 from rfl]
    omega

theorem goesDown_entryPath {r : Reference} (h : ValidId r.id) :
    ∀ s ∈ FileTree.steps r.entryPath, GoesDown s := by
  rw [steps_entryPath h]
  exact r.goesDown_entryNames

/-- Different artifacts have different paths. -/
theorem entryPath_inj {r r' : Reference} (h : ValidId r.id) (h' : ValidId r'.id)
    (heq : r.entryPath = r'.entryPath) : r = r' := by
  have hread := ofEntryPath?_entryPath r
  rw [heq, ofEntryPath?_entryPath, if_pos h, if_pos h'] at hread
  exact (Option.some.inj hread).symm

/-- The manifest does not stand where an artifact stands. -/
theorem entryNames_ne_manifest (r : Reference) : r.entryNames ≠ [manifestFile] := by
  rw [entryNames]
  simp

end Reference

theorem steps_manifestFile : FileTree.steps manifestFile = [manifestFile] := by decide

theorem goesDown_manifestFile : ∀ s ∈ FileTree.steps manifestFile, GoesDown s := by
  rw [steps_manifestFile, List.forall_mem_singleton]
  exact Reference.goesDown_of_length (by decide)

theorem goesDown_archiveFile : GoesDown archiveFile := Reference.goesDown_of_length (by decide)

/-! ## Files -/

namespace Emission

/-- A file is staged by making the directories on its path and putting it into the last of them. -/
theorem exists_graft_of_stageFile {path text : String} {files files' : FileTree}
    (hpath : ∀ s ∈ FileTree.steps path, GoesDown s) (h : stageFile path text files = .ok files') :
    ∃ dirs last made, FileTree.steps path = dirs ++ [last] ∧
      files.makeDirectories dirs = (made, none) ∧ FileTree.Open (dirs ++ [last]) made ∧
      (∀ cs, FileTree.follow (dirs ++ [last]) made ≠ .ok (.directory cs)) ∧
      files' = .graft (.file (.plain (some text))) (dirs ++ [last]) made := by
  obtain ⟨names, hnames, h⟩ := bind_eq_ok_iff.mp h
  have hread := FileTree.readPath_eq_ok (mapError_eq_ok_iff.mp hnames)
  subst hread
  rcases List.eq_nil_or_concat' (FileTree.steps path) with hnil | ⟨dirs, last, hsteps⟩
  · rw [FileTree.steps, List.map_eq_nil_iff] at hnil
    exact absurd hnil (Text.segments_ne_nil _ _)
  · rw [hsteps] at h hpath
    rw [List.dropLast_concat] at h
    have hlast : GoesDown last := hpath last (by simp)
    have hdirs : ∀ s ∈ dirs, GoesDown s := fun s hs => hpath s (List.mem_append_left _ hs)
    split at h
    case h_1 => cases h
    case h_2 made hmake =>
      obtain ⟨place, hplace, hopen, hold, rfl⟩ :=
        FileTree.writeFile_eq_ok hlast (mapError_eq_ok_iff.mp h)
      obtain rfl := FileTree.locate_of_goesDown hdirs hplace
      exact ⟨place, last, made, hsteps, hmake, hopen, hold, rfl⟩

/-- A staged file is added, or replaces the one that stood at its path. -/
theorem stageFile_eq_ok {path text : String} {files files' : FileTree} (htidy : files.Tidy)
    (hpath : ∀ s ∈ FileTree.steps path, GoesDown s) (h : stageFile path text files = .ok files') :
    files'.Tidy ∧ ∀ q, files'.contentAt q =
      if q = FileTree.steps path then some (.plain (some text)) else files.contentAt q := by
  obtain ⟨dirs, last, made, hsteps, hmake, hopen, hold, rfl⟩ := exists_graft_of_stageFile hpath h
  have hmade : (files.makeDirectories dirs).1.Tidy ∧
      ∀ q, (files.makeDirectories dirs).1.contentAt q = files.contentAt q := by
    refine FileTree.makeDirectories_preserves
      (P := fun t => t.Tidy ∧ ∀ q, t.contentAt q = files.contentAt q) ?_ ⟨htidy, fun q => rfl⟩
    intro t names hopen hfind ht
    refine ⟨ht.1.graft FileTree.tidy_empty names, fun q => ?_⟩
    rw [FileTree.contentAt_graft_empty hopen hfind, ht.2]
  rw [hmake] at hmade
  refine ⟨hmade.1.graft (.file _) _, fun q => ?_⟩
  rw [FileTree.contentAt_graft_file hopen hold, hmade.2, hsteps]

/-! ## Artifacts -/

/-- The entry that holds the envelope of an artifact. -/
def artifactEntry (a : Artifact) : Entry := ⟨a.reference.entryPath, some a.toJson.pretty⟩

/-- The entry that holds a manifest. -/
def manifestEntry (m : Manifest) : Entry := ⟨manifestFile, some m.toJson.pretty⟩

/-- The envelopes of some artifacts are staged, and nothing else. -/
structure Staged (as : List Artifact) (s : Staging) : Prop where
  valid : ∀ a ∈ as, ValidId a.reference.id
  paths_eq : s.paths = as.map fun a => a.reference.entryPath
  tidy : s.files.Tidy
  content_iff : ∀ q c, s.files.contentAt q = some c ↔
    ∃ a ∈ as, q = a.reference.entryNames ∧ c = .plain (some a.toJson.pretty)

theorem staged_empty : Staged [] .empty where
  valid := by simp
  paths_eq := rfl
  tidy := FileTree.tidy_empty
  content_iff := by
    intro q c
    cases q <;> simp [Staging.empty, FileTree.contentAt_eq_some_iff, FileTree.empty, FileTree.follow]

theorem stage_eq_ok {s s' : Staging} {a : Artifact} (h : stage s a = .ok s') :
    ValidId a.reference.id ∧ s'.paths = s.paths ++ [a.reference.entryPath] ∧
      stageFile a.reference.entryPath a.toJson.pretty s.files = .ok s'.files := by
  unfold stage at h
  dsimp only at h
  rw [Reference.ofEntryPath?_entryPath] at h
  split_ifs at h with hid
  · obtain ⟨files, hfiles, h⟩ := bind_eq_ok_iff.mp h
    cases h
    exact ⟨hid, rfl, hfiles⟩

/-- Staging one more artifact adds its envelope. -/
theorem Staged.stage {as : List Artifact} {s s' : Staging} (hs : Staged as s) {a : Artifact}
    (hnew : a.reference ∉ as.map Artifact.reference) (h : stage s a = .ok s') :
    Staged (as ++ [a]) s' := by
  obtain ⟨hid, hpaths, hfiles⟩ := stage_eq_ok h
  obtain ⟨htidy, hcontent⟩ := stageFile_eq_ok hs.tidy (Reference.goesDown_entryPath hid) hfiles
  refine ⟨?_, ?_, htidy, ?_⟩
  · intro b hb
    rcases List.mem_append.mp hb with hb | hb
    · exact hs.valid b hb
    · rw [List.mem_singleton.mp hb]
      exact hid
  · rw [hpaths, hs.paths_eq, List.map_append, List.map_singleton]
  · intro q c
    rw [hcontent, Reference.steps_entryPath hid]
    split_ifs with hq
    · subst hq
      constructor
      · intro hc
        cases hc
        exact ⟨a, by simp, rfl, rfl⟩
      · rintro ⟨b, hb, hnames, rfl⟩
        rcases List.mem_append.mp hb with hb | hb
        · have hpath : b.reference.entryPath = a.reference.entryPath := by
            rw [← Reference.intercalate_entryNames, ← hnames, Reference.intercalate_entryNames]
          have hsame := Reference.entryPath_inj (hs.valid b hb) hid hpath
          exact absurd (List.mem_map.mpr ⟨b, hb, hsame⟩) hnew
        · rw [List.mem_singleton.mp hb]
    · rw [hs.content_iff]
      constructor
      · rintro ⟨b, hb, hnames⟩
        exact ⟨b, List.mem_append_left _ hb, hnames⟩
      · rintro ⟨b, hb, hnames, hc⟩
        rcases List.mem_append.mp hb with hb | hb
        · exact ⟨b, hb, hnames, hc⟩
        · rw [List.mem_singleton.mp hb] at hnames
          exact absurd hnames hq

theorem Staged.foldlM {before as : List Artifact} {s s' : Staging} (hs : Staged before s)
    (distinct : ((before ++ as).map Artifact.reference).Nodup) (h : as.foldlM Emission.stage s = .ok s') :
    Staged (before ++ as) s' := by
  induction as generalizing before s with
  | nil =>
    cases h
    rwa [List.append_nil]
  | cons a as ih =>
    rw [List.foldlM_cons] at h
    obtain ⟨s₁, hstage, h⟩ := bind_eq_ok_iff.mp h
    have hnew : a.reference ∉ before.map Artifact.reference := by
      rw [List.map_append, List.nodup_append] at distinct
      intro hm
      exact distinct.2.2 _ hm _ (List.mem_map.mpr ⟨a, by simp, rfl⟩) rfl
    rw [List.append_cons] at distinct ⊢
    exact ih (hs.stage hnew hstage) distinct h

/-! ## Entries -/

theorem mem_entries_iff {files : FileTree} (htidy : files.Tidy) {e : Entry} :
    e ∈ entries files ↔
      (∃ q cs, q ≠ [] ∧ FileTree.follow q files = .ok (.directory cs) ∧
        e = ⟨"/".intercalate q ++ "/", some ""⟩) ∨
      ∃ q c, q ≠ [] ∧ files.contentAt q = some c ∧ e = ⟨"/".intercalate q, c.text?⟩ := by
  unfold entries
  rw [List.mem_filterMap]
  constructor
  · rintro ⟨⟨q, node⟩, hwalk, he⟩
    obtain ⟨q', hq, hfollow⟩ := htidy.mem_walk.mp hwalk
    rw [List.nil_append] at hq
    subst hq
    have hne : q ≠ [] := by
      rintro rfl
      cases he
    cases node with
    | directory cs =>
      simp only [List.isEmpty_iff, hne, if_false, Option.some.injEq] at he
      exact .inl ⟨q, cs, hne, hfollow, he.symm⟩
    | file c =>
      simp only [List.isEmpty_iff, hne, if_false, Option.some.injEq] at he
      exact .inr ⟨q, c, hne, FileTree.contentAt_eq_some_iff.mpr hfollow, he.symm⟩
  · rintro (⟨q, cs, hne, hfollow, rfl⟩ | ⟨q, c, hne, hcontent, rfl⟩)
    · refine ⟨(q, .directory cs), htidy.mem_walk.mpr ⟨q, rfl, hfollow⟩, ?_⟩
      simp [hne]
    · have hfollow := FileTree.contentAt_eq_some_iff.mp hcontent
      refine ⟨(q, .file c), htidy.mem_walk.mpr ⟨q, rfl, hfollow⟩, ?_⟩
      simp [hne]

/-- Some entries are those of an archive of some artifacts with a manifest. -/
structure Packed (as : List Artifact) (m : Manifest) (es : List Entry) : Prop where
  cases_of_mem : ∀ e ∈ es, e.isDirectory = true ∧ e.text? = some "" ∨ e = manifestEntry m ∨
    ∃ a ∈ as, e = artifactEntry a
  manifest_mem : manifestEntry m ∈ es
  artifact_mem : ∀ a ∈ as, artifactEntry a ∈ es

theorem isDirectory_slash (s : String) (text : Option String) :
    Entry.isDirectory ⟨s ++ "/", text⟩ = true := by
  simp [Entry.isDirectory]

theorem Staged.packed {as : List Artifact} {s : Staging} (hs : Staged as s) (m : Manifest)
    {files : FileTree} (h : stageFile manifestFile m.toJson.pretty s.files = .ok files) :
    Packed as m (entries files) := by
  obtain ⟨htidy, hcontent⟩ := stageFile_eq_ok hs.tidy goesDown_manifestFile h
  rw [steps_manifestFile] at hcontent
  constructor
  · intro e he
    rcases (mem_entries_iff htidy).mp he with ⟨q, cs, hne, hfollow, rfl⟩ | ⟨q, c, hne, hc, rfl⟩
    · exact .inl ⟨isDirectory_slash _ _, rfl⟩
    · rw [hcontent] at hc
      split_ifs at hc with hq
      · cases hc
        subst hq
        exact .inr (.inl (by rw [String.intercalate_singleton]; rfl))
      · obtain ⟨a, ha, rfl, rfl⟩ := (hs.content_iff q c).mp hc
        exact .inr (.inr ⟨a, ha, by rw [Reference.intercalate_entryNames]; rfl⟩)
  · refine (mem_entries_iff htidy).mpr (.inr ⟨[manifestFile],
      .plain (some m.toJson.pretty), by simp, ?_, ?_⟩)
    · exact (hcontent _).trans (if_pos rfl)
    · rw [String.intercalate_singleton]
      rfl
  · intro a ha
    have hnames := a.reference.entryNames_ne_manifest
    refine (mem_entries_iff htidy).mpr (.inr ⟨a.reference.entryNames, .plain (some a.toJson.pretty),
      by simp [Reference.entryNames], ?_, ?_⟩)
    · rw [hcontent, if_neg hnames]
      exact (hs.content_iff _ _).mpr ⟨a, ha, rfl, rfl⟩
    · rw [Reference.intercalate_entryNames]
      rfl

/-- The steps in which an outcome is packed. -/
theorem pack_eq_ok_iff {o : Outcome} {es : List Entry} :
    pack o = .ok es ↔ o.isSuccess = true ∧ o.reached ≠ [] ∧ ∃ root staging files,
      o.find? o.root = some root ∧ root.kind = .challenge ∧
      o.reached.foldlM stage .empty = .ok staging ∧
      stageFile manifestFile (manifest root staging.paths).toJson.pretty staging.files = .ok files ∧
      entries files = es := by
  constructor
  · intro h
    unfold pack at h
    dsimp only at h
    split at h
    · cases h
    case isFalse hsuccess =>
      split at h
      · cases h
      case isFalse hreached =>
        split at h
        case h_2 => cases h
        case h_1 root hroot =>
          split at h
          · cases h
          case isFalse hkind =>
            obtain ⟨staging, hstaging, h⟩ := bind_eq_ok_iff.mp h
            obtain ⟨files, hfiles, h⟩ := bind_eq_ok_iff.mp h
            exact ⟨by simpa using hsuccess, by simpa using hreached, root, staging, files, hroot,
              by simpa using hkind, hstaging, hfiles, Except.ok.inj h⟩
  · rintro ⟨hsuccess, hreached, root, staging, files, hroot, hkind, hstaging, hfiles, rfl⟩
    have hreached : o.reached.isEmpty = false := List.isEmpty_eq_false_iff.mpr hreached
    unfold pack
    rw [hsuccess, hreached, hroot]
    dsimp only
    rw [if_neg (by simp), if_neg (by simp), if_neg (by simp [hkind])]
    exact bind_of_ok hstaging (bind_of_ok hfiles rfl)

/-- What it takes to pack an outcome, and what the archive then holds. -/
theorem pack_eq_ok {o : Outcome} {es : List Entry} (h : pack o = .ok es)
    (distinct : (o.reached.map Artifact.reference).Nodup) :
    o.errors = [] ∧ (∀ a ∈ o.reached, ValidId a.reference.id) ∧
      ∃ root, o.find? o.root = some root ∧ root.kind = .challenge ∧
        Packed o.reached (manifest root (o.reached.map fun a => a.reference.entryPath)) es := by
  obtain ⟨hsuccess, -, root, staging, files, hroot, hkind, hstaging, hfiles, rfl⟩ :=
    pack_eq_ok_iff.mp h
  have hs : Staged o.reached staging := staged_empty.foldlM distinct hstaging
  refine ⟨List.isEmpty_iff.mp hsuccess, hs.valid, root, hroot, hkind, ?_⟩
  rw [← hs.paths_eq]
  exact hs.packed _ hfiles

end Emission
end Verdict
