import Verdict.Proofs.Archive.Consistency
import Verdict.Proofs.Archive.Staging

/-!
# Packed archives load

In a packed archive the name of an entry determines it, so every entry is kept. The manifest is read
back as it was written, and an envelope as an artifact of the same reference. The manifest lists these
artifacts, and its root is one of them: the archive is consistent.
-/

namespace Verdict

open Results

/-! ## Distinct entries -/

namespace Entry

/-- Entries that agree wherever they have the same name are all kept. -/
theorem mem_distinct_iff {es : List Entry} (h : ∀ e ∈ es, ∀ e' ∈ es, e.name = e'.name → e = e')
    {e : Entry} : e ∈ distinct es ↔ e ∈ es := by
  have hentries : Table.ofList (es.map fun e => (e.name, e)) =
      es.foldl (fun t e => t.insert e.name e) Table.empty := by
    rw [Table.ofList, List.foldl_map]
  have hempty : (Table.empty : Table String Entry).Distinct := Table.distinct_empty
  have hkept := hempty.foldl_insert Entry.name id es
  have hfind := Table.find?_foldl_insert Entry.name id es Table.empty
  simp only [id_eq, Table.find?_empty, Option.or_none, Option.map_id] at hkept hfind
  rw [distinct, hentries, Table.values, List.mem_map]
  constructor
  · rintro ⟨⟨k, e'⟩, hmem, rfl⟩
    have hlast := hkept.find?_eq_some_iff.mpr hmem
    rw [hfind] at hlast
    exact List.mem_of_mem_filter (List.mem_of_getLast? hlast)
  · intro he
    obtain ⟨last, hlast, hl, hname⟩ :=
      exists_getLast?_filter (p := fun e' => e'.name = e.name) he rfl
    obtain rfl := h last hl e he hname
    exact ⟨(last.name, last), Table.mem_entries_of_find? ((hfind _).trans hlast), rfl⟩

end Entry

/-! ## Packed entries -/

namespace Emission

theorem isDirectory_manifestEntry (m : Manifest) : (manifestEntry m).isDirectory = false :=
  Entry.isDirectory_of_name rfl

theorem holdsManifest_manifestEntry (m : Manifest) : (manifestEntry m).HoldsManifest m :=
  ⟨rfl, _, rfl, Manifest.ofText_pretty m⟩

theorem ofEntryPath?_artifactEntry {a : Artifact} (hid : ValidId a.reference.id) :
    Reference.ofEntryPath? (artifactEntry a).name = some a.reference := by
  rw [artifactEntry, Reference.ofEntryPath?_entryPath, if_pos hid]

/-- The envelope of a portable artifact holds the same artifact. -/
theorem exists_holds_artifactEntry {a : Artifact} (hid : ValidId a.reference.id) (h : a.Portable) :
    ∃ b, (artifactEntry a).Holds b ∧ b.reference = a.reference ∧ a.same b = true := by
  obtain ⟨b, hread, href, hsame⟩ := h.ofText_pretty
  refine ⟨b, ⟨?_, _, rfl, hread⟩, href, hsame⟩
  rw [href]
  exact ofEntryPath?_artifactEntry hid

namespace Packed

section Entries

variable {as : List Artifact} {m : Manifest} {es : List Entry} (h : Packed as m es)
  (valid : ∀ a ∈ as, ValidId a.reference.id) (distinct : (as.map Artifact.reference).Nodup)

include h valid

theorem isArtifact_iff {e : Entry} (he : e ∈ es) : e.IsArtifact ↔ ∃ a ∈ as, e = artifactEntry a := by
  constructor
  · intro hartifact
    rcases h.cases_of_mem e he with ⟨hdir, -⟩ | rfl | ha
    · rw [hartifact.1] at hdir
      cases hdir
    · exact absurd rfl hartifact.2
    · exact ha
  · rintro ⟨a, ha, rfl⟩
    exact Entry.isArtifact_of_ofEntryPath? (ofEntryPath?_artifactEntry (valid a ha))

include distinct

/-- In a packed archive the name of an entry determines it. -/
theorem eq_of_name : ∀ e ∈ es, ∀ e' ∈ es, e.name = e'.name → e = e' := by
  intro e he e' he' hname
  have hdirectory : e.isDirectory = e'.isDirectory := by
    rw [Entry.isDirectory, Entry.isDirectory, hname]
  have hartifact : e.IsArtifact ↔ e'.IsArtifact := by
    rw [Entry.IsArtifact, Entry.IsArtifact, hdirectory, hname]
  rw [h.isArtifact_iff valid he, h.isArtifact_iff valid he'] at hartifact
  have hcases := or_assoc.mpr (h.cases_of_mem e he)
  have hcases' := or_assoc.mpr (h.cases_of_mem e' he')
  by_cases ha : ∃ a ∈ as, e = artifactEntry a
  · obtain ⟨a', ha', rfl⟩ := hartifact.mp ha
    obtain ⟨a, ha, rfl⟩ := ha
    have href := Reference.entryPath_inj (valid a ha) (valid a' ha') hname
    rw [List.inj_on_of_nodup_map distinct ha ha' href]
  · rcases hcases.resolve_right ha with ⟨hdir, htext⟩ | rfl
    · rcases hcases'.resolve_right (mt hartifact.mpr ha) with ⟨-, htext'⟩ | rfl
      · cases e
        cases e'
        rw [Entry.mk.injEq]
        exact ⟨hname, htext.trans htext'.symm⟩
      · rw [hdir, isDirectory_manifestEntry] at hdirectory
        cases hdirectory
    · rcases hcases'.resolve_right (mt hartifact.mpr ha) with ⟨hdir', -⟩ | rfl
      · rw [hdir', isDirectory_manifestEntry] at hdirectory
        cases hdirectory
      · rfl

theorem mem_distinct_iff {e : Entry} : e ∈ Entry.distinct es ↔ e ∈ es :=
  Entry.mem_distinct_iff (h.eq_of_name valid distinct)

/-- The files of a packed archive are the envelopes. -/
theorem mem_files_iff {e : Entry} : e ∈ Entry.files es ↔ ∃ a ∈ as, e = artifactEntry a := by
  rw [Entry.mem_files_iff, h.mem_distinct_iff valid distinct]
  constructor
  · rintro ⟨he, hartifact⟩
    exact (h.isArtifact_iff valid he).mp hartifact
  · rintro ⟨a, ha, rfl⟩
    have he := h.artifact_mem a ha
    exact ⟨he, (h.isArtifact_iff valid he).mpr ⟨a, ha, rfl⟩⟩

end Entries

/-- A packed archive is consistent with the manifest that was packed with it. -/
theorem consistent {as : List Artifact} {root : Artifact} {es : List Entry}
    (h : Packed as (manifest root (as.map fun a => a.reference.entryPath)) es)
    (valid : ∀ a ∈ as, ValidId a.reference.id) (distinct : (as.map Artifact.reference).Nodup)
    (portable : ∀ a ∈ as, a.Portable) (hroot : root ∈ as) (hkind : root.kind = .challenge) :
    Loading.Consistent (Entry.distinct es)
      (manifest root (as.map fun a => a.reference.entryPath)) := by
  have hfiles := fun e => h.mem_files_iff valid distinct (e := e)
  apply Loading.consistent_of_files
  · exact ⟨_, (h.mem_distinct_iff valid distinct).mpr h.manifest_mem,
      holdsManifest_manifestEntry _⟩
  · intro name
    simp only [manifest, List.mem_mergeSort, List.mem_map, hfiles]
    constructor
    · rintro ⟨a, ha, rfl⟩
      exact ⟨_, ⟨a, ha, rfl⟩, rfl⟩
    · rintro ⟨_, ⟨a, ha, rfl⟩, rfl⟩
      exact ⟨a, ha, rfl⟩
  · intro e he
    obtain ⟨a, ha, rfl⟩ := (hfiles e).mp he
    obtain ⟨b, hb, -⟩ := exists_holds_artifactEntry (valid a ha) (portable a ha)
    exact ⟨b, hb⟩
  · refine ⟨_, (hfiles _).mpr ⟨root, hroot, rfl⟩, ?_⟩
    rw [ofEntryPath?_artifactEntry (valid root hroot), Artifact.reference, hkind]
    rfl

end Packed
end Emission

/-! ## Loaded archives -/

namespace LoadedArchive

/-- An archive holds some artifacts as they were, and no other. -/
structure Restores (as : List Artifact) (loaded : LoadedArchive) : Prop where
  size_eq : loaded.size = as.length
  exists_same : ∀ a ∈ as, ∃ b, loaded.artifact? a.reference = some b ∧
    b.reference = a.reference ∧ a.same b = true
  exists_of_artifact? : ∀ r b, loaded.artifact? r = some b → ∃ a ∈ as, a.reference = r

/-- What is registered from artifacts with distinct references. -/
theorem restores_ofArtifacts {as bs : List Artifact}
    (distinct : (as.map Artifact.reference).Nodup)
    (hread : ∀ a ∈ as, ∃ b ∈ bs, b.reference = a.reference ∧ a.same b = true)
    (hof : ∀ b ∈ bs, ∃ a ∈ as, b.reference = a.reference ∧ a.same b = true)
    (header : ManifestHeader) : Restores as ⟨header, .ofArtifacts bs⟩ := by
  have hfind : ∀ r b, (Registry.ofArtifacts bs).find? r = some b → b ∈ bs ∧ b.reference = r := by
    intro r b hb
    rw [Registry.find?_ofArtifacts] at hb
    simpa using List.mem_of_getLast? hb
  have hkeys : (Registry.ofArtifacts bs).keys.Perm (as.map Artifact.reference) := by
    apply (List.perm_ext_iff_of_nodup (Registry.indexed_ofArtifacts bs).distinct distinct).mpr
    intro r
    rw [Table.mem_keys_iff, Registry.contains_iff, Registry.exists_find?_ofArtifacts_iff,
      List.mem_map, List.mem_map]
    constructor
    · rintro ⟨b, hb, rfl⟩
      obtain ⟨a, ha, href, -⟩ := hof b hb
      exact ⟨a, ha, href.symm⟩
    · rintro ⟨a, ha, rfl⟩
      obtain ⟨b, hb, href, -⟩ := hread a ha
      exact ⟨b, hb, href⟩
  refine ⟨?_, fun a ha => ?_, fun r b hb => ?_⟩
  · rw [size, Table.size_eq_length_keys, hkeys.length_eq, List.length_map]
  · obtain ⟨b, hb, href, -⟩ := hread a ha
    obtain ⟨c, hc⟩ := Registry.exists_find?_ofArtifacts_iff.mpr
      (href ▸ List.mem_map_of_mem hb : a.reference ∈ bs.map Artifact.reference)
    obtain ⟨hmem, hcref⟩ := hfind _ _ hc
    obtain ⟨a', ha', href', hsame⟩ := hof c hmem
    obtain rfl := List.inj_on_of_nodup_map distinct ha' ha (href'.symm.trans hcref)
    exact ⟨c, hc, hcref, hsame⟩
  · obtain ⟨hmem, rfl⟩ := hfind r b hb
    obtain ⟨a, ha, href, -⟩ := hof b hmem
    exact ⟨a, ha, href.symm⟩

/-- A challenge that was packed is found by its id and version. -/
theorem Restores.exists_challenge {as : List Artifact} {loaded : LoadedArchive}
    (h : loaded.Restores as) {a : Artifact} (ha : a ∈ as) (hkind : a.kind = .challenge) :
    ∃ c, loaded.challenge ⟨a.id, a.version⟩ = .ok c := by
  obtain ⟨b, hb, href, -⟩ := h.exists_same a ha
  have hbkind : b.payload.kind = .challenge := (congrArg Reference.kind href).trans hkind
  have hkey : a.reference = VersionedId.withKind ⟨a.id, a.version⟩ .challenge := by
    rw [← hkind]
    rfl
  rw [hkey] at hb
  cases hp : b.payload with
  | challenge c =>
    refine ⟨c, ?_⟩
    rw [challenge, payload, hb, Option.bind_some, hp]
    rfl
  | _ =>
    rw [hp] at hbkind
    cases hbkind

/-- A packed archive loads, and holds the artifacts that were packed. -/
theorem ofEntries_of_packed {as : List Artifact} {root : Artifact} {es : List Entry}
    (distinct : (as.map Artifact.reference).Nodup) (valid : ∀ a ∈ as, ValidId a.reference.id)
    (portable : ∀ a ∈ as, a.Portable) (hroot : root ∈ as) (hkind : root.kind = .challenge)
    (h : Emission.Packed as (Emission.manifest root (as.map fun a => a.reference.entryPath)) es) :
    ∃ loaded, ofEntries es = .ok loaded ∧ loaded.Restores as ∧
      loaded.header = (Emission.manifest root []).header := by
  have hconsistent := h.consistent valid distinct portable hroot hkind
  have hholds : ∀ a ∈ as, ∃ b, (Emission.artifactEntry a).Holds b ∧ b.reference = a.reference ∧
      a.same b = true :=
    fun a ha => Emission.exists_holds_artifactEntry (valid a ha) (portable a ha)
  obtain ⟨bs, hbs⟩ := hconsistent.exists_artifacts
  refine ⟨_, ofEntries_eq_ok_iff.mpr ⟨_, bs, hconsistent, hbs, rfl⟩, ?_, rfl⟩
  apply restores_ofArtifacts distinct
  · intro a ha
    obtain ⟨b, hb, hsame⟩ := hholds a ha
    have he := (h.mem_files_iff valid distinct).mpr ⟨a, ha, rfl⟩
    exact ⟨b, (Loading.mem_artifacts_iff hbs).mpr ⟨_, he, hb⟩, hsame⟩
  · intro b hb
    obtain ⟨e, he, hheld⟩ := (Loading.mem_artifacts_iff hbs).mp hb
    obtain ⟨a, ha, rfl⟩ := (h.mem_files_iff valid distinct).mp he
    obtain ⟨c, hc, hsame⟩ := hholds a ha
    rw [hheld.unique hc]
    exact ⟨a, ha, hsame⟩

end LoadedArchive
end Verdict
