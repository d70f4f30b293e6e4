import Verdict.Proofs.Archive.RoundTrip
import Verdict.Proofs.FileTree.Outline

/-!
# Archives of another time

An archive says when its artifacts were built, in their envelopes and in the manifest. At another
time the same artifacts are packed under the same names in the same order, and every entry has the
same text but for that time.
-/

namespace Verdict

open Results

/-! ## Build times -/

/-- The artifact, built at another time. -/
def Artifact.stamped (builtAt : UInt64) (a : Artifact) : Artifact :=
  { a with metadata := { a.metadata with compiledAt := builtAt } }

@[simp] theorem Artifact.reference_stamped (builtAt : UInt64) (a : Artifact) :
    (a.stamped builtAt).reference = a.reference := rfl

theorem map_reference_stamped (builtAt : UInt64) (as : List Artifact) :
    (as.map (·.stamped builtAt)).map Artifact.reference = as.map Artifact.reference := by
  rw [List.map_map]
  rfl

def Manifest.stamped (builtAt : UInt64) (m : Manifest) : Manifest :=
  { m with header := { m.header with compiledAt := builtAt } }

namespace Outcome

/-- The outcome, with everything reached built at another time. -/
def stamped (builtAt : UInt64) (o : Outcome) : Outcome :=
  { o with reached := o.reached.map (·.stamped builtAt) }

variable (builtAt : UInt64) (o : Outcome)

@[simp] theorem isSuccess_stamped : (o.stamped builtAt).isSuccess = o.isSuccess := rfl

@[simp] theorem root_stamped : (o.stamped builtAt).root = o.root := rfl

theorem find?_stamped (r : Reference) :
    (o.stamped builtAt).find? r = (o.find? r).map (·.stamped builtAt) := by
  rw [find?, find?, stamped, List.find?_map]
  rfl

end Outcome

/-! ## Entries -/

/-- Two entries of one name: their texts are the same but for the build time. -/
inductive Entry.SameButTime (builtAt : UInt64) : Entry → Entry → Prop
  | same (e : Entry) : SameButTime builtAt e e
  | artifact (a : Artifact) : SameButTime builtAt (Emission.artifactEntry a)
      (Emission.artifactEntry (a.stamped builtAt))
  | manifest (m : Manifest) : SameButTime builtAt (Emission.manifestEntry m)
      (Emission.manifestEntry (m.stamped builtAt))

namespace Emission

/-- Two archives of the same artifacts with entries of the same names are the same but for the build
time. -/
theorem Packed.sameButTime {builtAt : UInt64} {as : List Artifact} {m : Manifest}
    {es es' : List Entry} (h : Packed as m es)
    (h' : Packed (as.map (·.stamped builtAt)) (m.stamped builtAt) es')
    (valid : ∀ a ∈ as, ValidId a.reference.id) (distinct : (as.map Artifact.reference).Nodup)
    (names : es.map Entry.name = es'.map Entry.name) :
    List.Forall₂ (Entry.SameButTime builtAt) es es' := by
  have valid' : ∀ a ∈ as.map (·.stamped builtAt), ValidId a.reference.id := by
    rw [List.forall_mem_map]
    exact valid
  have distinct' : ((as.map (·.stamped builtAt)).map Artifact.reference).Nodup := by
    rwa [map_reference_stamped]
  have hunique := h'.eq_of_name valid' distinct'
  refine forall₂_of_map_eq names fun e he e' he' hname => ?_
  have hdirectory : e.isDirectory = e'.isDirectory := by
    rw [Entry.isDirectory, Entry.isDirectory, hname]
  -- the name tells directories, the manifest and envelopes apart, and one envelope from another
  rcases h.cases_of_mem e he with ⟨hdir, htext⟩ | rfl | ⟨a, ha, rfl⟩
  · rcases h'.cases_of_mem e' he' with ⟨-, htext'⟩ | rfl | ⟨a', ha', rfl⟩
    · obtain rfl : e = e' := by
        cases e
        cases e'
        rw [Entry.mk.injEq]
        exact ⟨hname, htext.trans htext'.symm⟩
      exact .same e
    · rw [hdir, isDirectory_manifestEntry] at hdirectory
      cases hdirectory
    · have hartifact := (h'.isArtifact_iff valid' he').mpr ⟨a', ha', rfl⟩
      rw [hdir, hartifact.1] at hdirectory
      cases hdirectory
  · obtain rfl := hunique e' he' _ h'.manifest_mem hname.symm
    exact .manifest m
  · have hmem := h'.artifact_mem _ (List.mem_map_of_mem ha)
    obtain rfl := hunique e' he' _ hmem hname.symm
    exact .artifact a

/-! ## Packing -/

/-- What a file holds does not matter for staging it. -/
theorem stageFile_outline (path text : String) (files : FileTree) :
    stageFile path "" files.outline = (stageFile path text files).map FileTree.outline := by
  unfold stageFile
  cases FileTree.readPath path with
  | error fault => rfl
  | ok names =>
    dsimp only [Except.mapError]
    rw [ok_bind, ok_bind, FileTree.makeDirectories_outline]
    rcases files.makeDirectories names.dropLast with ⟨made, _ | fault⟩
    · dsimp only
      rw [FileTree.writeFile_outline made (.plain (some text))]
      cases made.writeFile (.plain (some text)) names <;> rfl
    · rfl

/-- The names of the entries of an archive are those of the staged files. -/
theorem map_name_entries_outline (files : FileTree) :
    (entries files.outline).map Entry.name = (entries files).map Entry.name := by
  unfold entries
  rw [FileTree.walk_outline, List.filterMap_map, List.map_filterMap, List.map_filterMap]
  apply List.filterMap_congr
  rintro ⟨path, c | cs⟩ -
  · simp only [Function.comp]
    split_ifs <;> rfl
  · simp only [Function.comp]
    split_ifs <;> rfl

/-- Two staging areas with the same paths and with files in the same places. -/
structure Staging.Alike (s s' : Staging) : Prop where
  paths_eq : s'.paths = s.paths
  outline_eq : s'.files.outline = s.files.outline

theorem stageFile_alike {path text : String} {files files' made : FileTree}
    (alike : files'.outline = files.outline) (h : stageFile path text files = .ok made)
    (text' : String) :
    ∃ made', stageFile path text' files' = .ok made' ∧ made'.outline = made.outline := by
  have houtline := stageFile_outline path text files
  rw [h, ← alike, stageFile_outline path text' files'] at houtline
  exact map_eq_ok_iff.mp houtline

variable (builtAt : UInt64)

theorem Staging.Alike.stage {s s' made : Staging} (alike : s.Alike s') {a : Artifact}
    (h : Emission.stage s a = .ok made) :
    ∃ made', Emission.stage s' (a.stamped builtAt) = .ok made' ∧ made.Alike made' := by
  obtain ⟨hid, hpaths, hfiles⟩ := stage_eq_ok h
  obtain ⟨files', hfiles', houtline⟩ :=
    stageFile_alike alike.outline_eq hfiles (a.stamped builtAt).toJson.pretty
  refine ⟨⟨s'.paths ++ [a.reference.entryPath], files'⟩, ?_, ?_, houtline⟩
  · unfold Emission.stage
    dsimp only
    rw [Artifact.reference_stamped, Reference.ofEntryPath?_entryPath, if_pos hid]
    exact bind_of_ok hfiles' rfl
  · rw [hpaths, alike.paths_eq]

theorem Staging.Alike.foldlM {s s' made : Staging} (alike : s.Alike s') {as : List Artifact}
    (h : as.foldlM Emission.stage s = .ok made) :
    ∃ made', (as.map (·.stamped builtAt)).foldlM Emission.stage s' = .ok made' ∧
      made.Alike made' := by
  induction as generalizing s s' with
  | nil =>
    cases h
    exact ⟨s', rfl, alike⟩
  | cons a as ih =>
    rw [List.foldlM_cons] at h
    obtain ⟨next, hnext, h⟩ := bind_eq_ok_iff.mp h
    obtain ⟨next', hnext', halike⟩ := alike.stage builtAt hnext
    obtain ⟨made', hmade', hmade⟩ := ih halike h
    exact ⟨made', by rw [List.map_cons, List.foldlM_cons]; exact bind_of_ok hnext' hmade', hmade⟩

/-- What is packed can be packed at another time, with entries of the same names. -/
theorem pack_stamped {o : Outcome} {es : List Entry} (h : pack o = .ok es) :
    ∃ es', pack (o.stamped builtAt) = .ok es' ∧ es.map Entry.name = es'.map Entry.name := by
  obtain ⟨hsuccess, hreached, root, staging, files, hroot, hkind, hstaging, hfiles, rfl⟩ :=
    pack_eq_ok_iff.mp h
  have hempty : Staging.Alike .empty .empty := ⟨rfl, rfl⟩
  obtain ⟨staging', hstaging', alike⟩ := hempty.foldlM builtAt hstaging
  obtain ⟨files', hfiles', houtline⟩ := stageFile_alike alike.outline_eq hfiles
    (manifest (root.stamped builtAt) staging'.paths).toJson.pretty
  refine ⟨entries files', pack_eq_ok_iff.mpr ⟨hsuccess, ?_, root.stamped builtAt, staging', files',
    ?_, hkind, hstaging', hfiles', rfl⟩, ?_⟩
  · exact mt List.map_eq_nil_iff.mp hreached
  · rw [Outcome.find?_stamped, Outcome.root_stamped, hroot]
    rfl
  · rw [← map_name_entries_outline files, ← map_name_entries_outline files', houtline]

/-- An archive packed at another time has the same entries but for that time. -/
theorem pack_sameButTime {o : Outcome} {es es' : List Entry}
    (distinct : (o.reached.map Artifact.reference).Nodup) (h : pack o = .ok es)
    (h' : pack (o.stamped builtAt) = .ok es') :
    List.Forall₂ (Entry.SameButTime builtAt) es es' := by
  obtain ⟨es'', hpack, hnames⟩ := pack_stamped builtAt h
  cases h'.symm.trans hpack
  have distinct' : ((o.stamped builtAt).reached.map Artifact.reference).Nodup := by
    rwa [Outcome.stamped, map_reference_stamped]
  obtain ⟨-, valid, root, hroot, -, hpacked⟩ := pack_eq_ok h distinct
  obtain ⟨-, -, root', hroot', -, hpacked'⟩ := pack_eq_ok h' distinct'
  rw [Outcome.find?_stamped, Outcome.root_stamped, hroot] at hroot'
  cases hroot'
  refine hpacked.sameButTime ?_ valid distinct hnames
  rw [Outcome.stamped, List.map_map] at hpacked'
  exact hpacked'

end Emission

/-! ## Emitting -/

/-- Whether a file can be put in place does not depend on what it holds. -/
theorem FileTree.exists_writeFile {t t' : FileTree} {content : Content} {path : List String}
    (h : t.writeFile content path = .ok t') (content' : Content) :
    ∃ t'', t.writeFile content' path = .ok t'' := by
  have houtline := t.writeFile_outline content path
  rw [h, t.writeFile_outline content' path] at houtline
  obtain ⟨t'', hwrite, -⟩ := map_eq_ok_iff.mp houtline
  exact ⟨t'', hwrite⟩

/-- What is emitted can be emitted at another time, and the archive is the same but for the
time. -/
theorem emit_stamped {tree tree' : FileTree} {output path : String} {o : Outcome}
    (distinct : (o.reached.map Artifact.reference).Nodup)
    (h : emit tree output o = (tree', .ok path)) (builtAt : UInt64) :
    ∃ tree'' es es', emit tree output (o.stamped builtAt) = (tree'', .ok path) ∧
      tree'.get path = .ok (.file (.archive es)) ∧ tree''.get path = .ok (.file (.archive es')) ∧
      List.Forall₂ (Entry.SameButTime builtAt) es es' := by
  obtain ⟨rfl, es, directory, made, hpack, hread, hmake, hwrite⟩ := emit_eq_ok_iff.mp h
  obtain ⟨es', hpack', -⟩ := Emission.pack_stamped builtAt hpack
  obtain ⟨names, hnames, hwrite⟩ := bind_eq_ok_iff.mp hwrite
  obtain ⟨tree'', hwrite'⟩ := FileTree.exists_writeFile hwrite (.archive es')
  have hemit : emit tree output (o.stamped builtAt) = (tree'', .ok (archivePath output)) :=
    emit_eq_ok_iff.mpr ⟨rfl, es', directory, made, hpack', hread, hmake, bind_of_ok hnames hwrite'⟩
  obtain ⟨-, es₁, hpack₁, hget⟩ := get_of_emit h
  obtain ⟨-, es₂, hpack₂, hget'⟩ := get_of_emit hemit
  exact ⟨tree'', es₁, es₂, hemit, hget, hget',
    Emission.pack_sameButTime builtAt distinct hpack₁ hpack₂⟩

end Verdict
