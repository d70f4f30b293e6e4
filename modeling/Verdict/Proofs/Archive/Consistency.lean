import Verdict.Archive.Loading
import Verdict.Proofs.Archive.Loaded
import Verdict.Proofs.Archive.Manifest
import Verdict.Proofs.Artifact.EntryPath
import Verdict.Proofs.Artifact.Stability
import Verdict.Proofs.Context

/-!
# Archives that load

An archive loads exactly if it is consistent: its manifest can be read, every other file in it holds
the artifact that its name stands for, the manifest lists these files, and one of them is for the
root challenge. What is loaded then are the artifacts of these files under their own references.
-/

namespace Verdict

open Results

/-! ## Entries -/

namespace Entry

/-- No two entries that an archive keeps have the same name. -/
theorem nodup_distinct (es : List Entry) : ((distinct es).map Entry.name).Nodup := by
  have hkeys : (Table.ofList (es.map fun e => (e.name, e))).Distinct :=
    Table.distinct_empty.foldl_insert _ _ _
  have hnames : ∀ x ∈ (Table.ofList (es.map fun e => (e.name, e))).entries,
      (Entry.name ∘ Prod.snd) x = x.1 := by
    intro x hx
    obtain ⟨e, -, rfl⟩ := List.mem_map.mp (Table.mem_of_mem_ofList hx)
    rfl
  rw [distinct, Table.values, List.map_map, List.map_congr_left hnames]
  exact hkeys

/-- An archive keeps all entries if no two of them have the same name. -/
theorem distinct_of_nodup {es : List Entry} (h : (es.map Entry.name).Nodup) : distinct es = es := by
  have hkeys : ((es.map fun e => (e.name, e)).map (·.1)).Nodup := by
    rwa [List.map_map]
  rw [distinct, Table.ofList_eq hkeys, Table.values, List.map_map]
  exact List.map_id es

/-- Entries with distinct names are kept in whatever order. -/
theorem distinct_perm {es es' : List Entry} (names : (es.map Entry.name).Nodup) (hp : es'.Perm es) :
    (distinct es').Perm (distinct es) := by
  have hnames' : (es'.map Entry.name).Nodup := (hp.map _).nodup_iff.mpr names
  rwa [distinct_of_nodup hnames', distinct_of_nodup names]

/-- An entry that has to hold an artifact: neither a directory nor the manifest. -/
def IsArtifact (e : Entry) : Prop := e.isDirectory = false ∧ e.name ≠ manifestFile

instance : DecidablePred IsArtifact := fun _ => inferInstanceAs (Decidable (_ ∧ _))

/-- The entry is the manifest, and `m` is what it says. -/
def HoldsManifest (e : Entry) (m : Manifest) : Prop :=
  e.name = manifestFile ∧ ∃ text, e.text? = some text ∧ Manifest.ofText text = .ok m

/-- The entry holds an artifact, and its name stands for that artifact. -/
def Holds (e : Entry) (a : Artifact) : Prop :=
  Reference.ofEntryPath? e.name = some a.reference ∧
    ∃ text, e.text? = some text ∧ Artifact.ofText text = .ok a

/-- The entries of an archive that have to hold artifacts. -/
def files (es : List Entry) : List Entry := (distinct es).filter IsArtifact

theorem mem_files_iff {es : List Entry} {e : Entry} :
    e ∈ files es ↔ e ∈ distinct es ∧ e.IsArtifact := by
  rw [files, List.mem_filter, decide_eq_true_eq]

theorem isDirectory_of_name {e : Entry} (h : e.name = manifestFile) : e.isDirectory = false := by
  rw [isDirectory, h]
  decide

/-- A name that stands for an artifact is neither of a directory nor of the manifest. -/
theorem isArtifact_of_ofEntryPath? {e : Entry} {r : Reference}
    (h : Reference.ofEntryPath? e.name = some r) : e.IsArtifact := by
  constructor
  · obtain ⟨-, version, -, hname⟩ := Reference.exists_version_of_ofEntryPath? h
    rw [isDirectory, hname]
    simp [List.getLast?_append, List.getLast?_cons, entryEnding]
  · intro hname
    have hmanifest : Reference.ofEntryPath? manifestFile = none := by decide
    rw [hname, hmanifest] at h
    cases h

/-- The text of an entry is read in one way. -/
theorem eq_of_text_read {α ε : Type} {read : String → Except ε α} {e : Entry} {x y : α}
    (hx : ∃ text, e.text? = some text ∧ read text = .ok x)
    (hy : ∃ text, e.text? = some text ∧ read text = .ok y) : x = y := by
  obtain ⟨text, htext, hread⟩ := hx
  obtain ⟨text', htext', hread'⟩ := hy
  obtain rfl := Option.some.inj (htext.symm.trans htext')
  exact Except.ok.inj (hread.symm.trans hread')

theorem HoldsManifest.unique {e : Entry} {m m' : Manifest} (h : e.HoldsManifest m)
    (h' : e.HoldsManifest m') : m = m' :=
  eq_of_text_read h.2 h'.2

theorem Holds.unique {e : Entry} {a b : Artifact} (h : e.Holds a) (h' : e.Holds b) : a = b :=
  eq_of_text_read h.2 h'.2

end Entry

/-! ## Reading entries -/

namespace Loading

theorem readArtifact_eq_ok_iff {name text : String} {a : Artifact} :
    readArtifact name text = .ok a ↔
      Reference.ofEntryPath? name = some a.reference ∧ Artifact.ofText text = .ok a := by
  rw [readArtifact]
  cases Reference.ofEntryPath? name with
  | none => simp
  | some expected =>
    simp only [bind_eq_ok_iff, mapError_eq_ok_iff, Option.some.injEq]
    constructor
    · rintro ⟨b, hread, hb⟩
      split_ifs at hb with hne
      · cases hb
      · obtain rfl := Except.ok.inj hb
        exact ⟨(not_not.mp hne).symm, hread⟩
    · rintro ⟨rfl, hread⟩
      exact ⟨a, hread, if_neg (not_not.mpr rfl)⟩

section Entry

variable {p p' : Progress} {e : Entry}

theorem readEntry_of_isDirectory (h : e.isDirectory = true) : readEntry p e = .ok p := by
  rw [readEntry, if_pos h]
  rfl

theorem readEntry_manifest_iff (h : e.name = manifestFile) :
    readEntry p e = .ok p' ↔ ∃ m, e.HoldsManifest m ∧ p' = { p with manifest := some m } := by
  rw [readEntry, if_neg (by simp [Entry.isDirectory_of_name h])]
  cases htext : e.text? with
  | none => simp [Entry.HoldsManifest, htext]
  | some text =>
    simp [h, Entry.HoldsManifest, htext, bind_eq_ok_iff, mapError_eq_ok_iff, eq_comm (b := p')]

theorem readEntry_artifact_iff (h : e.IsArtifact) :
    readEntry p e = .ok p' ↔
      ∃ a, e.Holds a ∧ p' = { p with artifacts := p.artifacts ++ [(e.name, a)] } := by
  rw [readEntry, if_neg (by simp [h.1])]
  cases htext : e.text? with
  | none => simp [Entry.Holds, htext]
  | some text =>
    simp [h.2, Entry.Holds, htext, bind_eq_ok_iff, readArtifact_eq_ok_iff, and_assoc,
      eq_comm (b := p')]

end Entry

/-- A run over entries reads exactly the manifests and the artifacts that they hold. -/
theorem foldlM_readEntry_eq_ok_iff {es : List Entry} {p p' : Progress} :
    es.foldlM readEntry p = .ok p' ↔ ∃ ms as,
      List.Forall₂ Entry.HoldsManifest (es.filter fun e => e.name = manifestFile) ms ∧
      List.Forall₂ Entry.Holds (es.filter Entry.IsArtifact) as ∧
      p' = ⟨ms.getLast?.or p.manifest,
        p.artifacts ++ ((es.filter Entry.IsArtifact).map Entry.name).zip as⟩ := by
  induction es generalizing p with
  | nil => simp [eq_comm (a := p)]
  | cons e es ih =>
    rw [List.foldlM_cons, bind_eq_ok_iff]
    -- a directory is in neither of the two lists, and any other entry in one of them
    by_cases hdir : e.isDirectory = true
    · have hname : ¬ e.name = manifestFile := fun h => by
        simp [Entry.isDirectory_of_name h] at hdir
      have hartifact : ¬ e.IsArtifact := fun h => by simp [h.1] at hdir
      simp [readEntry_of_isDirectory hdir, ih, hname, hartifact]
    by_cases hname : e.name = manifestFile
    · have hartifact : ¬ e.IsArtifact := fun h => h.2 hname
      rw [List.filter_cons_of_pos (by simpa using hname),
        List.filter_cons_of_neg (by simpa using hartifact)]
      simp only [readEntry_manifest_iff hname, ih, List.forall₂_cons_left_iff]
      constructor
      · rintro ⟨_, ⟨m, hm, rfl⟩, ms, as, hms, has, rfl⟩
        refine ⟨m :: ms, as, ⟨m, ms, hm, hms, rfl⟩, has, ?_⟩
        cases h : ms.getLast? <;> simp [List.getLast?_cons, h]
      · rintro ⟨_, as, ⟨m, ms, hm, hms, rfl⟩, has, rfl⟩
        refine ⟨_, ⟨m, hm, rfl⟩, ms, as, hms, has, ?_⟩
        cases h : ms.getLast? <;> simp [List.getLast?_cons, h]
    · have hartifact : e.IsArtifact := ⟨Bool.eq_false_of_not_eq_true hdir, hname⟩
      rw [List.filter_cons_of_neg (by simpa using hname),
        List.filter_cons_of_pos (by simpa using hartifact)]
      simp only [readEntry_artifact_iff hartifact, ih, List.forall₂_cons_left_iff]
      constructor
      · rintro ⟨_, ⟨a, ha, rfl⟩, ms, as, hms, has, rfl⟩
        exact ⟨ms, a :: as, hms, ⟨a, as, ha, has, rfl⟩, by simp⟩
      · rintro ⟨ms, _, hms, ⟨a, as, ha, has, rfl⟩, rfl⟩
        exact ⟨_, ⟨a, ha, rfl⟩, ms, as, hms, has, by simp⟩

/-- The check passes exactly if the manifest lists what was read and its root challenge was read. -/
theorem check_eq_ok_iff {p : Progress} {l : LoadedArchive} :
    check p = .ok l ↔ ∃ m, p.manifest = some m ∧
      (∀ name, name ∈ m.files ↔ name ∈ p.artifacts.map (·.1)) ∧
      l = ⟨m.header, .ofArtifacts (p.artifacts.map (·.2))⟩ ∧ ∃ c, l.challenge l.root = .ok c := by
  rw [check]
  cases p.manifest with
  | none => simp
  | some m =>
    dsimp only
    constructor
    · intro h
      split at h
      case h_1 => cases h
      case h_2 hmissing =>
        split at h
        case h_1 => cases h
        case h_2 hunlisted =>
          split at h
          case h_2 => cases h
          case h_1 c hc =>
            obtain rfl := Except.ok.inj h
            replace hmissing := Option.eq_none_iff_forall_ne_some.mpr hmissing
            replace hunlisted := Option.eq_none_iff_forall_ne_some.mpr hunlisted
            rw [List.find?_eq_none] at hmissing hunlisted
            refine ⟨m, rfl, fun name => ⟨fun hn => ?_, fun hn => ?_⟩, rfl, c, hc⟩
            · simpa using hmissing name hn
            · simpa using hunlisted name (List.mem_mergeSort.mpr hn)
    · rintro ⟨_, hm, hfiles, rfl, c, hc⟩
      obtain rfl := Option.some.inj hm
      have hmissing : (m.files.find? fun f => f ∉ p.artifacts.map (·.1)) = none := by
        rw [List.find?_eq_none]
        intro f hf
        simpa using (hfiles f).mp hf
      have hunlisted : (((p.artifacts.map (·.1)).mergeSort fun a b => a ≤ b).find?
          fun n => n ∉ m.files) = none := by
        rw [List.find?_eq_none]
        intro n hn
        simpa using (hfiles n).mpr (List.mem_mergeSort.mp hn)
      rw [hmissing, hunlisted]
      dsimp only
      rw [hc]
      rfl

/-! ## Consistent archives -/

section Holds

variable {es : List Entry} {as : List Artifact} (h : List.Forall₂ Entry.Holds es as)

include h

/-- The artifacts that are read have the references that the names of the entries stand for. -/
theorem map_ofEntryPath?_name :
    (es.map fun e => Reference.ofEntryPath? e.name) = as.map fun a => some a.reference := by
  induction h with
  | nil => rfl
  | cons ha _ ih => rw [List.map_cons, List.map_cons, ha.1, ih]

theorem mem_references_iff {r : Reference} :
    r ∈ as.map Artifact.reference ↔ ∃ e ∈ es, Reference.ofEntryPath? e.name = some r := by
  have hplaces := congrArg (some r ∈ ·) (map_ofEntryPath?_name h)
  simp only [List.mem_map, Option.some.injEq, eq_iff_iff] at hplaces
  rw [hplaces, List.mem_map]

theorem map_fst_zip : ((es.map Entry.name).zip as).map (·.1) = es.map Entry.name :=
  List.map_fst_zip (by simp [h.length_eq])

theorem map_snd_zip : ((es.map Entry.name).zip as).map (·.2) = as :=
  List.map_snd_zip (by simp [h.length_eq])

theorem mem_artifacts_iff {a : Artifact} : a ∈ as ↔ ∃ e ∈ es, e.Holds a := by
  refine ⟨exists_of_forall₂ h, ?_⟩
  rintro ⟨e, he, ha⟩
  obtain ⟨b, hb, hholds⟩ := exists_of_forall₂ h.flip he
  rwa [ha.unique hholds]

end Holds

/-- What has to be true of the entries of an archive with the manifest `m`. -/
structure Consistent (es : List Entry) (m : Manifest) : Prop where
  manifest : ∃ e ∈ es, e.HoldsManifest m
  listed : ∀ name, name ∈ m.files ↔ ∃ e ∈ es, e.IsArtifact ∧ e.name = name
  holds : ∀ e ∈ es, e.IsArtifact → ∃ a, e.Holds a
  root : ∃ e ∈ es, e.IsArtifact ∧
    Reference.ofEntryPath? e.name = some ⟨.challenge, m.header.rootId, m.header.rootVersion⟩

/-- Where no name occurs twice, the manifest is one entry. -/
theorem filter_manifest {es : List Entry} (names : (es.map Entry.name).Nodup) {e : Entry}
    (he : e ∈ es) (hname : e.name = manifestFile) :
    (es.filter fun e => e.name = manifestFile) = [e] := by
  have hes : es.Nodup := names.of_map
  rw [← List.perm_singleton, List.perm_ext_iff_of_nodup (hes.filter _) (List.nodup_singleton e)]
  intro e'
  rw [List.mem_filter, decide_eq_true_eq, List.mem_singleton]
  constructor
  · rintro ⟨he', hname'⟩
    exact List.inj_on_of_nodup_map names he' he (hname'.trans hname.symm)
  · rintro rfl
    exact ⟨he, hname⟩

section Files

variable {entries : List Entry} {m : Manifest}

theorem consistent_of_files (manifest : ∃ e ∈ Entry.distinct entries, e.HoldsManifest m)
    (listed : ∀ name, name ∈ m.files ↔ name ∈ (Entry.files entries).map Entry.name)
    (holds : ∀ e ∈ Entry.files entries, ∃ a, e.Holds a)
    (root : ∃ e ∈ Entry.files entries, Reference.ofEntryPath? e.name =
      some ⟨.challenge, m.header.rootId, m.header.rootVersion⟩) :
    Consistent (Entry.distinct entries) m := by
  simp only [List.mem_map, Entry.mem_files_iff, and_assoc, and_imp] at listed holds root
  exact ⟨manifest, listed, holds, root⟩

/-- In a consistent archive every file can be read. -/
theorem Consistent.exists_artifacts (h : Consistent (Entry.distinct entries) m) :
    ∃ as, List.Forall₂ Entry.Holds (Entry.files entries) as := by
  apply exists_forall₂_iff.mpr
  intro e he
  obtain ⟨hmem, hartifact⟩ := Entry.mem_files_iff.mp he
  exact h.holds e hmem hartifact

end Files

/-- An archive of artifacts under given names. Its manifest comes first and lists these names. -/
def listing (header : ManifestHeader) (xs : List (String × Artifact)) : List Entry :=
  ⟨manifestFile, some (Manifest.mk header (xs.map (·.1))).toJson.pretty⟩ ::
    xs.map fun x => ⟨x.1, some x.2.toJson.pretty⟩

/-- Artifacts under different names that stand for them, and the root among them. -/
structure Placed (header : ManifestHeader) (xs : List (String × Artifact)) : Prop where
  names : (xs.map (·.1)).Nodup
  places : ∀ x ∈ xs, Reference.ofEntryPath? x.1 = some x.2.reference
  settled : ∀ x ∈ xs, x.2.Settled
  root : ∃ x ∈ xs, x.2.reference = ⟨.challenge, header.rootId, header.rootVersion⟩

namespace Placed

variable {header : ManifestHeader} {xs : List (String × Artifact)} (h : Placed header xs)

include h

theorem isArtifact : ∀ x ∈ xs, Entry.IsArtifact ⟨x.1, some x.2.toJson.pretty⟩ :=
  fun x hx => Entry.isArtifact_of_ofEntryPath? (h.places x hx)

theorem nodup_listing : ((listing header xs).map Entry.name).Nodup := by
  rw [listing, List.map_cons, List.map_map, List.nodup_cons]
  refine ⟨?_, h.names⟩
  rw [List.mem_map]
  rintro ⟨x, hx, hname⟩
  exact (h.isArtifact x hx).2 hname

theorem distinct_listing : Entry.distinct (listing header xs) = listing header xs :=
  Entry.distinct_of_nodup h.nodup_listing

theorem files_listing : Entry.files (listing header xs) =
    xs.map fun x => ⟨x.1, some x.2.toJson.pretty⟩ := by
  have hmanifest : ∀ text, ¬ Entry.IsArtifact ⟨manifestFile, text⟩ := fun text h => h.2 rfl
  rw [Entry.files, h.distinct_listing, listing, List.filter_cons_of_neg (by simpa using hmanifest _),
    List.filter_eq_self, List.forall_mem_map]
  intro x hx
  exact decide_eq_true (h.isArtifact x hx)

theorem consistent_listing : Consistent (listing header xs) ⟨header, xs.map (·.1)⟩ := by
  rw [← h.distinct_listing]
  apply consistent_of_files
  · rw [h.distinct_listing]
    exact ⟨_, List.mem_cons_self, rfl, _, rfl, Manifest.ofText_pretty _⟩
  · intro name
    rw [h.files_listing, List.map_map]
    rfl
  · rw [h.files_listing, List.forall_mem_map]
    intro x hx
    exact ⟨x.2, h.places x hx, _, rfl, (h.settled x hx).ofText_pretty⟩
  · obtain ⟨x, hx, href⟩ := h.root
    rw [h.files_listing, ← href]
    exact ⟨_, List.mem_map_of_mem hx, h.places x hx⟩

end Placed
end Loading

namespace LoadedArchive

/-- A challenge is there exactly if its reference is registered. -/
theorem exists_challenge_iff {header : ManifestHeader} {as : List Artifact} {key : VersionedId} :
    (∃ c, challenge ⟨header, .ofArtifacts as⟩ key = .ok c) ↔
      key.withKind .challenge ∈ as.map Artifact.reference := by
  rw [← Registry.exists_find?_ofArtifacts_iff]
  simp only [challenge, payload_eq_ok_iff, artifact?]
  constructor
  · rintro ⟨c, a, ha, -⟩
    exact ⟨a, ha⟩
  · rintro ⟨a, ha⟩
    have hkind : a.payload.kind = .challenge :=
      congrArg Reference.kind ((Registry.indexed_ofArtifacts as).reference_eq _ a ha)
    cases hp : a.payload with
    | challenge c => exact ⟨c, a, ha, by rw [hp]; rfl⟩
    | _ => simp [hp, Payload.kind] at hkind

/-- The root challenge is there exactly if some entry is for it. -/
theorem exists_root_iff {header : ManifestHeader} {es : List Entry} {as : List Artifact}
    {l : LoadedArchive} (has : List.Forall₂ Entry.Holds (es.filter Entry.IsArtifact) as)
    (hl : l = ⟨header, .ofArtifacts as⟩) :
    (∃ c, l.challenge l.root = .ok c) ↔ ∃ e ∈ es, e.IsArtifact ∧
      Reference.ofEntryPath? e.name = some ⟨.challenge, header.rootId, header.rootVersion⟩ := by
  subst hl
  rw [exists_challenge_iff, Loading.mem_references_iff has]
  simp only [List.mem_filter, decide_eq_true_eq, and_assoc]
  rfl

/-- An archive loads as the artifacts that its entries hold if it is consistent, and not else. -/
theorem ofEntries_eq_ok_iff {entries : List Entry} {l : LoadedArchive} :
    ofEntries entries = .ok l ↔ ∃ m as, Loading.Consistent (Entry.distinct entries) m ∧
      List.Forall₂ Entry.Holds (Entry.files entries) as ∧ l = ⟨m.header, .ofArtifacts as⟩ := by
  have hnames := Entry.nodup_distinct entries
  rw [ofEntries, bind_eq_ok_iff, Entry.files]
  simp only [Loading.foldlM_readEntry_eq_ok_iff, Loading.check_eq_ok_iff]
  generalize Entry.distinct entries = es at hnames
  constructor
  · rintro ⟨_, ⟨ms, as, hms, has, rfl⟩, m, hm, hfiles, rfl, hroot⟩
    simp only [Loading.Progress.empty, Option.or_none, List.nil_append, Loading.map_fst_zip has,
      Loading.map_snd_zip has] at hm hfiles hroot ⊢
    refine ⟨m, as, ⟨?_, ?_, ?_, ?_⟩, has, rfl⟩
    · obtain ⟨e, he, hholds⟩ := exists_of_forall₂ hms (List.mem_of_getLast? hm)
      exact ⟨e, List.mem_of_mem_filter he, hholds⟩
    · simpa [and_assoc] using hfiles
    · simpa using exists_forall₂_iff.mp ⟨as, has⟩
    · exact (exists_root_iff has rfl).mp hroot
  · rintro ⟨m, as, h, has, rfl⟩
    obtain ⟨e, he, hm⟩ := h.manifest
    -- a run keeps the last manifest, and here there is no other
    rw [Loading.filter_manifest hnames he hm.1]
    refine ⟨_, ⟨[m], as, .cons hm .nil, has, rfl⟩, m, rfl, ?_, ?_, ?_⟩
    · simpa [Loading.Progress.empty, Loading.map_fst_zip has, and_assoc] using h.listed
    · rw [Loading.Progress.empty, List.nil_append, Loading.map_snd_zip has]
    · exact (exists_root_iff has rfl).mpr h.root

theorem exists_ofEntries_iff {entries : List Entry} :
    (∃ l, ofEntries entries = .ok l) ↔ ∃ m, Loading.Consistent (Entry.distinct entries) m := by
  constructor
  · rintro ⟨l, hl⟩
    obtain ⟨m, as, h, -⟩ := ofEntries_eq_ok_iff.mp hl
    exact ⟨m, h⟩
  · rintro ⟨m, h⟩
    obtain ⟨as, has⟩ := h.exists_artifacts
    exact ⟨_, ofEntries_eq_ok_iff.mpr ⟨m, as, h, has, rfl⟩⟩

/-- An archive of artifacts in their places loads. -/
theorem exists_ofEntries_listing {header : ManifestHeader} {xs : List (String × Artifact)}
    (h : Loading.Placed header xs) : ∃ l, ofEntries (Loading.listing header xs) = .ok l := by
  rw [exists_ofEntries_iff, h.distinct_listing]
  exact ⟨_, h.consistent_listing⟩

/-- An archive loads exactly if it is consistent. Its header is then the one of the manifest, the
root challenge is there, and every artifact comes from an entry whose name stands for it. -/
theorem ofEntries_iff_consistent (entries : List Entry) :
    ((∃ l, ofEntries entries = .ok l) ↔
      ∃ m, Loading.Consistent (Entry.distinct entries) m) ∧
    ∀ l, ofEntries entries = .ok l → ∃ m, Loading.Consistent (Entry.distinct entries) m ∧
      l.header = m.header ∧ (∃ c, l.challenge l.root = .ok c) ∧
      ∀ r a, (r, a) ∈ l.artifacts.entries → a.reference = r ∧ l.artifact? r = some a ∧
        ∃ e ∈ Entry.distinct entries, e.IsArtifact ∧ e.Holds a := by
  refine ⟨exists_ofEntries_iff, ?_⟩
  intro l hl
  obtain ⟨m, as, h, has, rfl⟩ := ofEntries_eq_ok_iff.mp hl
  have hindexed := Registry.indexed_ofArtifacts as
  refine ⟨m, h, rfl, (exists_root_iff has rfl).mpr h.root, fun r a hmem => ?_⟩
  have hfind : (Registry.ofArtifacts as).find? r = some a :=
    hindexed.distinct.find?_eq_some_iff.mpr hmem
  have ha : a ∈ as := by
    rw [Registry.find?_ofArtifacts] at hfind
    exact List.mem_of_mem_filter (List.mem_of_getLast? hfind)
  obtain ⟨e, he, hholds⟩ := (Loading.mem_artifacts_iff has).mp ha
  obtain ⟨hdistinct, hartifact⟩ := Entry.mem_files_iff.mp he
  exact ⟨hindexed.reference_eq r a hfind, hfind, e, hdistinct, hartifact, hholds⟩

/-- A challenge of one task. -/
def visit : Artifact :=
  ⟨"c1", 1, ⟨"1.0", 5, ""⟩, [⟨.task, "t1", 1⟩], .challenge ⟨[⟨"t1", 1⟩]⟩⟩

/-- Its task. -/
def visitTask : Artifact :=
  ⟨"t1", 1, ⟨"1.0", 5, ""⟩, [⟨.ruleset, "rs1", 1⟩], .task ⟨⟨"rs1", 1⟩, .boolean, [], ""⟩⟩

def visitHeader : ManifestHeader := ⟨"c1", 1, 5, "1.0"⟩

def visitFiles : List (String × Artifact) :=
  [("Task/1/t1.json", visitTask), ("Challenge/1/c1.json", visit)]

theorem placed_visitFiles : Loading.Placed visitHeader visitFiles where
  names := by decide
  places := by
    rw [visitFiles]
    simp only [List.forall_mem_cons]
    exact ⟨by decide, by decide, by simp⟩
  settled := by
    rw [visitFiles]
    simp only [List.forall_mem_cons]
    exact ⟨Artifact.Portable.settled trivial (by decide),
      Artifact.Portable.settled trivial (by decide), by simp⟩
  root := ⟨_, List.mem_cons_of_mem _ List.mem_cons_self, rfl⟩

theorem ofEntries_iff_consistent_visitFiles :
    ∃ l m, ofEntries (Loading.listing visitHeader visitFiles) = .ok l ∧
      Loading.Consistent (Loading.listing visitHeader visitFiles) m ∧
      l.header = m.header ∧ ∃ c, l.challenge l.root = .ok c := by
  obtain ⟨hloads, hloaded⟩ := ofEntries_iff_consistent (Loading.listing visitHeader visitFiles)
  rw [placed_visitFiles.distinct_listing] at hloads hloaded
  obtain ⟨l, hl⟩ := hloads.mpr ⟨_, placed_visitFiles.consistent_listing⟩
  obtain ⟨m, h, hheader, hroot, -⟩ := hloaded l hl
  exact ⟨l, m, hl, h, hheader, hroot⟩

end LoadedArchive
end Verdict
