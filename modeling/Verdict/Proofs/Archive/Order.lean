import Verdict.Proofs.Archive.RoundTrip
import Verdict.Proofs.FileTree.Sorted
import Verdict.Proofs.Source.Loading

/-!
# The order of entries

The entries of an archive stand in the order of a walk, which compares names one by one, and the
manifest lists the artifacts in the order of their paths as whole texts. Both orders are the same: no
name of a kind or of a version is continued by another one with a character before the slash.
-/

namespace Verdict

open FileTree (GoesDown Overtaken joined marked)
open Results

/-! ## Names of entries -/

theorem FileTree.Overtaken.two_le_length {xs ys : List String} (h : Overtaken xs ys) :
    2 ≤ xs.length := by
  cases h with
  | @sibling name _ _ _ names _ hne _ _ =>
    have := List.length_pos_of_ne_nil hne
    rw [List.length_cons]
    omega
  | deeper h =>
    have := List.length_pos_of_ne_nil h.ne_nil.1
    rw [List.length_cons]
    omega

namespace Reference

/-- The name of the entry for the directory of an artifact's kind. -/
def kindDirectory (r : Reference) : String := r.kind.name ++ "/"

/-- The name of the entry for the directory of an artifact's kind and version. -/
def versionDirectory (r : Reference) : String :=
  r.kind.name ++ "/" ++ toString r.version.toNat ++ "/"

end Reference

namespace Emission

/-- What the names of entries are joined from. The last name of a directory is empty. -/
inductive Spelled : List String → Prop
  | manifest : Spelled [manifestFile]
  | kind (k : Kind) : Spelled [k.name, ""]
  | version (k : Kind) (v : Version) : Spelled [k.name, toString v.toNat, ""]
  | artifact {r : Reference} : ValidId r.id → Spelled r.entryNames

variable {xs ys : List String}

/-- Only the manifest has one name; the others start with a kind and digits, perhaps none. -/
theorem Spelled.cases_on_kind (h : Spelled xs) : xs = [manifestFile] ∨
    ∃ (k : Kind) (digits : String) (rest : List String), xs = k.name :: digits :: rest ∧
      Json.Reader.AllDigits digits.toList ∧ rest.length < 2 := by
  cases h with
  | manifest => exact .inl rfl
  | kind k => exact .inr ⟨k, "", [], rfl, by simp [Json.Reader.AllDigits], by decide⟩
  | version k v =>
    refine .inr ⟨k, toString v.toNat, [""], rfl, ?_, Nat.one_lt_two⟩
    rw [toList_toString_nat]
    exact Json.allDigits_toDigits _
  | @artifact r _ =>
    refine .inr ⟨r.kind, toString r.version.toNat, [r.id ++ entryEnding], rfl, ?_, Nat.one_lt_two⟩
    rw [toList_toString_nat]
    exact Json.allDigits_toDigits _

theorem Spelled.slash_not_mem (h : Spelled xs) : ∀ name ∈ xs, '/' ∉ name.toList := by
  have hkind := Reference.not_mem_kindName
  have hversion := fun v : Version => not_mem_toString (c := '/') (by decide) v.toNat
  cases h with
  | manifest => decide
  | kind k => simp [hkind]
  | version k v =>
    simp only [List.forall_mem_cons]
    exact ⟨hkind k, hversion v, by decide, by simp⟩
  | artifact hid =>
    obtain ⟨-, hslash, -⟩ := validId_iff.mp hid
    simp only [Reference.entryNames, List.forall_mem_cons]
    refine ⟨hkind _, hversion _, ?_, by simp⟩
    rw [String.toList_append, List.mem_append, not_or]
    exact ⟨hslash, by decide⟩

/-- If the name of a kind starts another name, it goes on with a letter. -/
theorem slash_lt_of_kind {k : Kind} {c : Char} {tail : List Char} {name : String}
    (hname : name = manifestFile ∨ ∃ k' : Kind, name = k'.name)
    (h : name.toList = k.name.toList ++ c :: tail) : ¬c < '/' := by
  rcases hname with rfl | ⟨k', rfl⟩
  · cases k <;> simp [Kind.name, manifestFile] at h
  · cases k <;> cases k' <;> simp [Kind.name] at h
    obtain ⟨rfl, -⟩ := h
    decide

theorem slash_lt_of_digits {digits : String} (hdigits : Json.Reader.AllDigits digits.toList)
    {c : Char} {start tail : List Char} (h : digits.toList = start ++ c :: tail) : ¬c < '/' := by
  have hc : c.isDigit = true := hdigits c (by rw [h]; simp)
  have hbounds : 48 ≤ c.toNat ∧ c.toNat ≤ 57 := Char.isDigit_iff_toNat.mp hc
  intro hlt
  have hlt' : c.toNat < 47 := hlt
  omega

/-- No entry changes places when its names are joined. -/
theorem Spelled.not_overtaken (hx : Spelled xs) (hy : Spelled ys) : ¬Overtaken xs ys := by
  intro h
  rcases hx.cases_on_kind with rfl | ⟨k, digits, rest, rfl, -, hrest⟩
  · exact absurd h.two_le_length (by decide)
  cases h with
  | sibling _ hname hc =>
    refine slash_lt_of_kind ?_ hname hc
    rcases hy.cases_on_kind with heq | ⟨k', digits', rest', heq, -⟩
    · exact .inl (List.cons.inj heq).1
    · exact .inr ⟨k', (List.cons.inj heq).1⟩
  | deeper h =>
    rcases hy.cases_on_kind with heq | ⟨k', digits', rest', heq, hdigits, -⟩
    · cases (List.cons.inj heq).2 ▸ h
    · obtain ⟨-, rfl⟩ := List.cons.inj heq
      cases h with
      | sibling _ hname hc => exact slash_lt_of_digits hdigits hname hc
      | deeper h => exact absurd h.two_le_length (not_le.mpr hrest)

theorem Spelled.joined_lt (hx : Spelled xs) (hy : Spelled ys) (h : xs < ys) : joined xs < joined ys := by
  refine FileTree.joined_lt_joined ?_ hy.slash_not_mem h (hx.not_overtaken hy)
  cases hx <;> simp [Reference.entryNames]

/-! ## Staged directories -/

section Staged

variable {path text : String} {files files' : FileTree}

theorem sorted_stageFile (sorted : files.Sorted) (hpath : ∀ s ∈ FileTree.steps path, GoesDown s)
    (h : stageFile path text files = .ok files') : files'.Sorted := by
  obtain ⟨dirs, last, made, -, hmake, -, -, rfl⟩ := exists_graft_of_stageFile hpath h
  have hmade := sorted.makeDirectories dirs
  rw [hmake] at hmade
  exact hmade.graft (.file _) _

/-- A staged file stands at its path, in directories, and everything else is as before. -/
theorem occupant?_stageFile (hpath : ∀ s ∈ FileTree.steps path, GoesDown s)
    (h : stageFile path text files = .ok files') (q : List String) : files'.occupant? q =
      if q = FileTree.steps path then some (.file (.plain (some text)))
      else if q <+: (FileTree.steps path).dropLast then some .directory
      else files.occupant? q := by
  obtain ⟨dirs, last, made, hsteps, hmake, hopen, hold, rfl⟩ := exists_graft_of_stageFile hpath h
  have hdirs : ∀ s ∈ dirs, GoesDown s := fun s hs =>
    hpath s (by rw [hsteps]; exact List.mem_append_left _ hs)
  have hmade := FileTree.occupant?_makeDirectories (FileTree.not_up_of_goesDown hdirs) hmake q
  have hfree : made.occupant? (dirs ++ [last]) ≠ some .directory := fun hdir => by
    obtain ⟨cs, hcs⟩ := FileTree.occupant?_eq_directory_iff.mp hdir
    exact hold cs hcs
  rw [FileTree.moves_of_goesDown hdirs] at hmade
  rw [FileTree.occupant?_graft hopen hfree (FileTree.occupant?_file_below _), hsteps,
    List.dropLast_concat, hmade]
  rfl

theorem occupant?_stageFile_eq_directory_iff (hpath : ∀ s ∈ FileTree.steps path, GoesDown s)
    (h : stageFile path text files = .ok files') {q : List String} :
    files'.occupant? q = some .directory ↔ q ≠ FileTree.steps path ∧
      (q <+: (FileTree.steps path).dropLast ∨ files.occupant? q = some .directory) := by
  rw [occupant?_stageFile hpath h]
  split_ifs with hq hway
  · exact iff_of_false nofun fun hne => hne.1 hq
  · exact iff_of_true rfl ⟨hq, .inl hway⟩
  · rw [or_iff_right hway, and_iff_right hq]

end Staged

/-- The directories on the paths of some artifacts are there, and no other. -/
structure Arranged (as : List Artifact) (files : FileTree) : Prop where
  sorted : files.Sorted
  directory_iff : ∀ q, files.occupant? q = some .directory ↔
    q = [] ∨ ∃ a ∈ as, q <+: a.reference.entryNames.dropLast

theorem arranged_empty : Arranged [] .empty where
  sorted := FileTree.sorted_empty
  directory_iff q := by
    cases q with
    | nil => exact iff_of_true rfl (.inl rfl)
    | cons s q =>
      rw [FileTree.occupant?_empty_below _ (List.cons_ne_nil s q)]
      simp

/-- A file is at none of the directories on the way to a file. -/
theorem not_entryNames_prefix (r r' : Reference) : ¬r.entryNames <+: r'.entryNames.dropLast :=
  fun h => absurd h.length_le (by simp [Reference.entryNames])

variable {as : List Artifact}

theorem Arranged.stage {s s' : Staging} (hs : Arranged as s.files) {a : Artifact}
    (h : stage s a = .ok s') : Arranged (as ++ [a]) s'.files := by
  obtain ⟨hid, -, hfiles⟩ := stage_eq_ok h
  have hdown := Reference.goesDown_entryPath hid
  refine ⟨sorted_stageFile hs.sorted hdown hfiles, fun q => ?_⟩
  rw [occupant?_stageFile_eq_directory_iff hdown hfiles, Reference.steps_entryPath hid,
    hs.directory_iff]
  constructor
  · rintro ⟨-, hq | hq | ⟨b, hb, hq⟩⟩
    · exact .inr ⟨a, by simp, hq⟩
    · exact .inl hq
    · exact .inr ⟨b, List.mem_append_left _ hb, hq⟩
  · rintro (rfl | ⟨b, hb, hq⟩)
    · exact ⟨by simp [Reference.entryNames], .inl List.nil_prefix⟩
    · refine ⟨?_, ?_⟩
      · rintro rfl
        exact not_entryNames_prefix _ _ hq
      · rcases List.mem_append.mp hb with hb | hb
        · exact .inr (.inr ⟨b, hb, hq⟩)
        · rw [List.mem_singleton.mp hb] at hq
          exact .inl hq

theorem Arranged.foldlM {before : List Artifact} {s s' : Staging} (hs : Arranged before s.files)
    (h : as.foldlM Emission.stage s = .ok s') : Arranged (before ++ as) s'.files := by
  induction as generalizing before s with
  | nil =>
    cases h
    rwa [List.append_nil]
  | cons a as ih =>
    rw [List.foldlM_cons] at h
    obtain ⟨s₁, hstage, h⟩ := bind_eq_ok_iff.mp h
    rw [List.append_cons]
    exact ih (hs.stage hstage) h

/-- The manifest stands beside the kinds and adds no directory. -/
theorem Arranged.stageFile_manifest {text : String} {files files' : FileTree}
    (h : Arranged as files) (hfile : stageFile manifestFile text files = .ok files') :
    Arranged as files' := by
  refine ⟨sorted_stageFile h.sorted goesDown_manifestFile hfile, fun q => ?_⟩
  rw [occupant?_stageFile_eq_directory_iff goesDown_manifestFile hfile, steps_manifestFile,
    h.directory_iff]
  constructor
  · rintro ⟨-, hq | hq⟩
    · exact .inl (List.prefix_nil.mp hq)
    · exact hq
  · intro hq
    refine ⟨?_, .inr hq⟩
    rintro rfl
    rcases hq with hq | ⟨a, -, hq⟩
    · cases hq
    · obtain ⟨hkind, -⟩ := List.cons_prefix_cons.mp hq
      revert hkind
      cases a.reference.kind <;> decide

/-! ## Entries in order -/

/-- The entry for what stands at a place. -/
def entryOf (q : List String) : FileTree → Entry
  | .directory _ => ⟨joined q ++ "/", some ""⟩
  | .file c => ⟨joined q, c.text?⟩

theorem entries_eq (files : FileTree) :
    entries files = ((files.walk []).filter fun x => x.1 ≠ []).map fun x => entryOf x.1 x.2 := by
  unfold entries
  induction files.walk [] with
  | nil => rfl
  | cons x xs ih =>
    obtain ⟨q, node⟩ := x
    by_cases hq : q = []
    · subst hq
      rw [List.filterMap_cons_none rfl, List.filter_cons_of_neg (by simp), ih]
    · rw [List.filter_cons_of_pos (by simp [hq]), List.map_cons, ← ih]
      cases node with
      | directory cs => simp [hq, entryOf, joined]
      | file c => simp [hq, entryOf, joined]

theorem name_entryOf {q : List String} (hne : q ≠ []) (node : FileTree) :
    (entryOf q node).name = joined (marked q node) := by
  cases node with
  | directory cs => exact (FileTree.joined_concat_empty hne).symm
  | file c => rfl

variable {m : Manifest} {s : Staging} {files : FileTree}

/-- Staged files stand where the manifest or an artifact belongs. -/
theorem Staged.place_of_content (hs : Staged as s) {text : String}
    (h : stageFile manifestFile text s.files = .ok files) {q : List String} {c : Content}
    (hc : files.contentAt q = some c) : q = [manifestFile] ∨ ∃ a ∈ as, q = a.reference.entryNames := by
  obtain ⟨-, hcontent⟩ := stageFile_eq_ok hs.tidy goesDown_manifestFile h
  rw [hcontent, steps_manifestFile] at hc
  split_ifs at hc with hq
  · exact .inl hq
  · obtain ⟨a, ha, hnames, -⟩ := (hs.content_iff q c).mp hc
    exact .inr ⟨a, ha, hnames⟩

theorem prefix_dropLast_iff {r : Reference} {q : List String} (hne : q ≠ []) :
    q <+: r.entryNames.dropLast ↔ q = [r.kind.name] ∨ q = [r.kind.name, toString r.version.toNat] := by
  obtain ⟨name, q, rfl⟩ := List.exists_cons_of_ne_nil hne
  change _ <+: [_, _] ↔ _
  cases q with
  | nil => simp
  | cons name' q => simp [List.cons_prefix_cons]

/-- What stands where in staged files. -/
structure Filled (as : List Artifact) (files : FileTree) : Prop extends Arranged as files where
  valid : ∀ a ∈ as, ValidId a.reference.id
  places : ∀ q c, files.contentAt q = some c →
    q = [manifestFile] ∨ ∃ a ∈ as, q = a.reference.entryNames

theorem Staged.filled (hs : Staged as s) (arranged : Arranged as s.files) {text : String}
    (h : stageFile manifestFile text s.files = .ok files) : Filled as files :=
  ⟨arranged.stageFile_manifest h, hs.valid, fun _ _ => hs.place_of_content h⟩

namespace Filled

/-- The name of every entry is joined from names that keep their order. -/
theorem spelled (h : Filled as files) {q : List String} (hne : q ≠ []) {node : FileTree}
    (hnode : FileTree.follow q files = .ok node) :
    Spelled (marked q node) ∧ ∀ name ∈ q, name ≠ "" := by
  have hdown : ∀ r : Reference, ∀ name ∈ r.entryNames, name ≠ "" := fun r name hname =>
    (r.goesDown_entryNames name hname).1
  cases node with
  | directory cs =>
    have hdir := FileTree.occupant?_eq_directory_iff.mpr ⟨cs, hnode⟩
    obtain ⟨a, -, hq⟩ := ((h.directory_iff q).mp hdir).resolve_left hne
    refine ⟨?_, fun name hname => hdown a.reference name (List.mem_of_mem_dropLast (hq.subset hname))⟩
    rcases (prefix_dropLast_iff hne).mp hq with rfl | rfl
    · exact .kind _
    · exact .version _ _
  | file c =>
    rcases h.places q c (FileTree.contentAt_eq_some_iff.mpr hnode) with rfl | ⟨a, ha, rfl⟩
    · exact ⟨.manifest, by decide⟩
    · exact ⟨.artifact (h.valid a ha), hdown _⟩

/-- The names of the entries come in order. -/
theorem pairwise_entries (h : Filled as files) :
    (entries files).Pairwise fun e e' => e.name < e'.name := by
  have hstands : ∀ x ∈ (files.walk []).filter (fun x => x.1 ≠ []),
      x.1 ≠ [] ∧ FileTree.follow x.1 files = .ok x.2 := by
    intro x hx
    obtain ⟨hwalk, hne⟩ := List.mem_filter.mp hx
    obtain ⟨q, hq, hnode⟩ := h.sorted.tidy.mem_walk.mp hwalk
    rw [List.nil_append] at hq
    exact ⟨by simpa using hne, hq ▸ hnode⟩
  rw [entries_eq, List.pairwise_map]
  refine ((h.sorted.pairwise_walk []).filter _).imp_of_mem fun {x y} hx hy hlt => ?_
  obtain ⟨hxne, hxnode⟩ := hstands x hx
  obtain ⟨hyne, hynode⟩ := hstands y hy
  obtain ⟨hxspelled, -⟩ := h.spelled hxne hxnode
  obtain ⟨hyspelled, hynames⟩ := h.spelled hyne hynode
  rw [name_entryOf hxne, name_entryOf hyne]
  exact hxspelled.joined_lt hyspelled (FileTree.marked_lt_marked hlt hynames _ _)

/-- An entry that is no file stands for a directory on the path of an artifact. -/
theorem exists_place_of_isDirectory (h : Filled as files) {e : Entry} (he : e ∈ entries files)
    (hdir : e.isDirectory = true) : ∃ a ∈ as, ∃ q ≠ [],
      q <+: a.reference.entryNames.dropLast ∧ e.name = joined q ++ "/" := by
  rcases (mem_entries_iff h.sorted.tidy).mp he with
    ⟨q, cs, hne, hnode, rfl⟩ | ⟨q, c, hne, hc, rfl⟩
  · have hstands := FileTree.occupant?_eq_directory_iff.mpr ⟨cs, hnode⟩
    obtain ⟨a, ha, hq⟩ := ((h.directory_iff q).mp hstands).resolve_left hne
    exact ⟨a, ha, q, hne, hq, rfl⟩
  · rcases h.places q c hc with rfl | ⟨a, ha, rfl⟩
    · have hname : "/".intercalate [manifestFile] = manifestFile := String.intercalate_singleton
      rw [Entry.isDirectory_of_name hname] at hdir
      cases hdir
    · have hread := ofEntryPath?_artifactEntry (h.valid a ha)
      rw [artifactEntry, ← Reference.intercalate_entryNames] at hread
      have hartifact := (Entry.isArtifact_of_ofEntryPath? (e := ⟨_, c.text?⟩) hread).1
      rw [hartifact] at hdir
      cases hdir

theorem mem_entries_of_prefix (h : Filled as files) {a : Artifact} (ha : a ∈ as) {q : List String}
    (hne : q ≠ []) (hq : q <+: a.reference.entryNames.dropLast) :
    ⟨joined q ++ "/", some ""⟩ ∈ entries files := by
  have hstands := (h.directory_iff q).mpr (.inr ⟨a, ha, hq⟩)
  obtain ⟨cs, hcs⟩ := FileTree.occupant?_eq_directory_iff.mp hstands
  exact (mem_entries_iff h.sorted.tidy).mpr (.inl ⟨q, cs, hne, hcs, rfl⟩)

theorem joined_kind (r : Reference) : joined [r.kind.name] ++ "/" = r.kindDirectory := by
  rw [joined, String.intercalate_singleton]
  rfl

theorem joined_version (r : Reference) :
    joined [r.kind.name, toString r.version.toNat] ++ "/" = r.versionDirectory := by
  rw [joined, String.intercalate_cons_cons, String.intercalate_singleton]
  rfl

/-- The directory entries are those of the kinds and versions of the artifacts. -/
theorem mem_directories (h : Filled as files) {name : String} :
    name ∈ ((entries files).filter Entry.isDirectory).map Entry.name ↔
      ∃ a ∈ as, name = a.reference.kindDirectory ∨ name = a.reference.versionDirectory := by
  constructor
  · intro hname
    obtain ⟨e, he, rfl⟩ := List.mem_map.mp hname
    obtain ⟨he, hdir⟩ := List.mem_filter.mp he
    obtain ⟨a, ha, q, hne, hq, heq⟩ := h.exists_place_of_isDirectory he hdir
    refine ⟨a, ha, ?_⟩
    rcases (prefix_dropLast_iff hne).mp hq with rfl | rfl
    · exact .inl (heq.trans (joined_kind _))
    · exact .inr (heq.trans (joined_version _))
  · have hstands : ∀ a ∈ as, ∀ q, q ≠ [] → q <+: a.reference.entryNames.dropLast →
        joined q ++ "/" ∈ ((entries files).filter Entry.isDirectory).map Entry.name := by
      intro a ha q hne hq
      exact List.mem_map.mpr ⟨_, List.mem_filter.mpr
        ⟨h.mem_entries_of_prefix ha hne hq, isDirectory_slash _ _⟩, rfl⟩
    rintro ⟨a, ha, rfl | rfl⟩
    · rw [← joined_kind]
      exact hstands a ha _ (by simp) ((prefix_dropLast_iff (by simp)).mpr (.inl rfl))
    · rw [← joined_version]
      exact hstands a ha _ (by simp) ((prefix_dropLast_iff (by simp)).mpr (.inr rfl))

end Filled

/-! ## The manifest and the entries -/

/-- The paths of the artifacts are listed in order, each once. -/
theorem pairwise_files (valid : ∀ a ∈ as, ValidId a.reference.id)
    (distinct : (as.map Artifact.reference).Nodup) (root : Artifact) :
    (manifest root (as.map fun a => a.reference.entryPath)).files.Pairwise (· < ·) := by
  have hnodup : (as.map fun a => a.reference.entryPath).Nodup := by
    apply distinct.of_map.map_on
    intro a ha b hb hpath
    have href := Reference.entryPath_inj (valid a ha) (valid b hb) hpath
    exact List.inj_on_of_nodup_map distinct ha hb href
  have hsorted : ((as.map fun a => a.reference.entryPath).mergeSort fun a b => a ≤ b).Pairwise
    fun a b => a ≤ b := pairwise_mergeSort_key id (fun _ _ => decide_eq_true_iff) _
  have hdistinct := (List.mergeSort_perm (as.map fun a => a.reference.entryPath)
    fun a b => a ≤ b).nodup_iff.mpr hnodup
  exact (hsorted.and hdistinct).imp fun ⟨hle, hne⟩ => lt_of_le_of_ne hle hne

/-- Every artifact is listed before the manifest, in the order of texts. -/
theorem entryPath_lt_manifestFile {r : Reference} (hid : ValidId r.id) :
    r.entryPath < manifestFile := by
  have hkind : r.kind.name < manifestFile := by cases r.kind <;> decide
  have hlt : r.entryNames < [manifestFile] := List.cons_lt_cons_iff.mpr (.inl hkind)
  have hjoined := (Spelled.artifact hid).joined_lt .manifest hlt
  rwa [joined, joined, Reference.intercalate_entryNames, String.intercalate_singleton] at hjoined

/-- The order of an archive is the order of its manifest. Directories come before what is in them. -/
structure InOrder (as : List Artifact) (m : Manifest) (es : List Entry) : Prop where
  files_eq : (es.filter fun e => !e.isDirectory).map Entry.name = m.files ++ [manifestFile]
  increasing : m.files.Pairwise (· < ·)
  listed : m.files.Perm (as.map fun a => a.reference.entryPath)
  directories_nodup : ((es.filter Entry.isDirectory).map Entry.name).Nodup
  mem_directories : ∀ name, name ∈ (es.filter Entry.isDirectory).map Entry.name ↔
    ∃ a ∈ as, name = a.reference.kindDirectory ∨ name = a.reference.versionDirectory
  before : es.Pairwise fun e e' => e'.isDirectory = true → ¬e'.name.toList <+: e.name.toList

theorem Packed.mem_files {es : List Entry} (packed : Packed as m es)
    (valid : ∀ a ∈ as, ValidId a.reference.id) {name : String} :
    name ∈ (es.filter fun e => !e.isDirectory).map Entry.name ↔
      (∃ a ∈ as, name = a.reference.entryPath) ∨ name = manifestFile := by
  constructor
  · intro hname
    obtain ⟨e, he, rfl⟩ := List.mem_map.mp hname
    obtain ⟨he, hdir⟩ := List.mem_filter.mp he
    rcases packed.cases_of_mem e he with ⟨hdir', -⟩ | rfl | ⟨a, ha, rfl⟩
    · rw [hdir'] at hdir
      cases hdir
    · exact .inr rfl
    · exact .inl ⟨a, ha, rfl⟩
  · have hfile : ∀ e ∈ es, e.isDirectory = false →
        e.name ∈ (es.filter fun e => !e.isDirectory).map Entry.name := fun e he hdir =>
      List.mem_map.mpr ⟨e, List.mem_filter.mpr ⟨he, by rw [hdir]; rfl⟩, rfl⟩
    rintro (⟨a, ha, rfl⟩ | rfl)
    · have hartifact := Entry.isArtifact_of_ofEntryPath? (ofEntryPath?_artifactEntry (valid a ha))
      exact hfile _ (packed.artifact_mem a ha) hartifact.1
    · exact hfile _ packed.manifest_mem (isDirectory_manifestEntry m)

/-- A text does not start with a later one. -/
theorem not_prefix_of_lt {s s' : String} (h : s < s') : ¬s'.toList <+: s.toList := by
  rintro ⟨rest, hrest⟩
  rw [String.lt_iff, ← hrest] at h
  cases rest with
  | nil =>
    rw [List.append_nil] at h
    exact lt_irrefl _ h
  | cons c tail => exact lt_asymm h (lt_append_cons _ c tail)

theorem Filled.inOrder (h : Filled as files) (distinct : (as.map Artifact.reference).Nodup)
    {root : Artifact}
    (packed : Packed as (manifest root (as.map fun a => a.reference.entryPath)) (entries files)) :
    InOrder as (manifest root (as.map fun a => a.reference.entryPath)) (entries files) := by
  have hnames := h.pairwise_entries
  have hincreasing := pairwise_files h.valid distinct root
  have hlisted : (manifest root (as.map fun a => a.reference.entryPath)).files.Perm
    (as.map fun a => a.reference.entryPath) := List.mergeSort_perm _ _
  have hmap : ∀ p : Entry → Bool, (((entries files).filter p).map Entry.name).Pairwise (· < ·) :=
    fun p => List.pairwise_map.mpr (hnames.filter p)
  have hbefore : (entries files).Pairwise fun e e' =>
      e'.isDirectory = true → ¬e'.name.toList <+: e.name.toList := by
    apply hnames.imp
    intro e e' hlt _
    exact not_prefix_of_lt hlt
  refine ⟨?_, hincreasing, hlisted, (hmap _).imp ne_of_lt, fun name => h.mem_directories, hbefore⟩
  -- both sides are in order and have the same members
  have hall : ((manifest root (as.map fun a => a.reference.entryPath)).files ++
      [manifestFile]).Pairwise (· < ·) := by
    rw [List.pairwise_append]
    refine ⟨hincreasing, List.pairwise_singleton _ _, fun path hpath name hname => ?_⟩
    obtain ⟨a, ha, rfl⟩ := List.mem_map.mp (hlisted.mem_iff.mp hpath)
    rw [List.mem_singleton.mp hname]
    exact entryPath_lt_manifestFile (h.valid a ha)
  refine List.Perm.eq_of_pairwise' (hmap _) hall ?_
  rw [List.perm_ext_iff_of_nodup ((hmap _).imp ne_of_lt) (hall.imp ne_of_lt)]
  intro name
  rw [packed.mem_files h.valid, List.mem_append, List.mem_singleton, hlisted.mem_iff, List.mem_map]
  simp only [eq_comm]

theorem inOrder_of_pack {o : Outcome} {es : List Entry} (h : pack o = .ok es)
    (distinct : (o.reached.map Artifact.reference).Nodup) :
    ∃ m, Packed o.reached m es ∧ InOrder o.reached m es := by
  obtain ⟨-, -, root, staging, files, -, -, hstaging, hfiles, rfl⟩ := pack_eq_ok_iff.mp h
  have hs : Staged o.reached staging := staged_empty.foldlM distinct hstaging
  have empty : Arranged [] Staging.empty.files := arranged_empty
  have arranged : Arranged o.reached staging.files := empty.foldlM hstaging
  have packed := hs.packed _ hfiles
  rw [hs.paths_eq] at packed
  exact ⟨_, packed, (hs.filled arranged hfiles).inOrder distinct packed⟩

end Emission

/-- An archive that was emitted for a root holds its files in the order in which the manifest lists
them, the manifest itself last. The manifest lists what the root reaches in increasing order, and the
directories are those of the kinds and versions in use, each before what is in it. -/
theorem emit_in_order {c : Context} (assembled : c.Assembled) (root : Reference)
    {tree tree' : FileTree} {output path : String}
    (emitted : emit tree output (Outcome.ofRoot c root) = (tree', .ok path)) :
    ∃ es m, tree'.get path = .ok (.file (.archive es)) ∧ (∃ e ∈ es, e.HoldsManifest m) ∧
      (∀ e ∈ es, e.name = manifestFile → e.HoldsManifest m) ∧
      Emission.InOrder (Outcome.ofRoot c root).reached m es := by
  obtain ⟨-, es, hpack, hget⟩ := get_of_emit emitted
  obtain ⟨hsuccess, -⟩ := Emission.pack_eq_ok_iff.mp hpack
  have closure := Outcome.isClosure_ofRoot assembled (Outcome.frozen_of_isSuccess hsuccess) root
  obtain ⟨m, packed, hordered⟩ := Emission.inOrder_of_pack hpack closure.reached_nodup
  obtain ⟨-, valid, -⟩ := Emission.pack_eq_ok hpack closure.reached_nodup
  have hholds := Emission.holdsManifest_manifestEntry m
  refine ⟨es, m, hget, ⟨_, packed.manifest_mem, hholds⟩, fun e he hname => ?_, hordered⟩
  rw [packed.eq_of_name valid closure.reached_nodup e he _ packed.manifest_mem hname]
  exact hholds

theorem emit_in_order_adultCheck :
    (emit .empty "out" adultCheckOutcome).2 = .ok "out/compilation_package.dar" ∧
      ∃ es, ∃ m : Manifest, (emit .empty "out" adultCheckOutcome).1.get "out/compilation_package.dar" =
          .ok (.file (.archive es)) ∧
        (es.filter fun e => !e.isDirectory).map Entry.name = m.files ++ [manifestFile] ∧
        m.files = ["Challenge/1/entry.json", "Rule/1/adult.json", "Ruleset/2/ages.json",
          "Task/1/check.json"] := by
  obtain ⟨es, m, hget, -, -, hordered⟩ := emit_in_order
    (Context.assembled_ofArtifacts adultCheck .frozen) ⟨.challenge, "entry", 1⟩
    (Prod.ext rfl emit_adultCheck)
  refine ⟨emit_adultCheck, es, m, hget, hordered.files_eq, ?_⟩
  have hpaths : (adultCheckOutcome.reached.map fun a => a.reference.entryPath).Perm
      ["Challenge/1/entry.json", "Rule/1/adult.json", "Ruleset/2/ages.json", "Task/1/check.json"] := by
    decide +kernel
  exact (hordered.listed.trans hpaths).eq_of_pairwise' hordered.increasing (by decide)

end Verdict
