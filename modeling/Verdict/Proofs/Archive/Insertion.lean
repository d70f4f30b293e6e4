import Verdict.Proofs.Archive.Loaded
import Verdict.Proofs.Context

/-!
# Archives filled one artifact at a time

Whatever is inserted into an archive and in whatever order, an artifact is found under its own
reference unless a later one has replaced it. The look-up for a kind finds payloads of its kind
only, so it answers whenever there is something under the reference.
-/

namespace Verdict

namespace Registry

theorem mem_listed_iff {registered : Registry} (indexed : registered.Indexed) {a : Artifact} :
    a ∈ registered.listed ↔ registered.find? a.reference = some a := by
  rw [listed, List.mem_mergeSort, mem_values_iff indexed]

/-- Every reference is listed once. -/
theorem nodup_listed {registered : Registry} (indexed : registered.Indexed) :
    (registered.listed.map Artifact.reference).Nodup := by
  have hkeys : registered.values.map Artifact.reference = registered.keys := by
    rw [Table.values, Table.keys, List.map_map]
    refine List.map_congr_left fun e he => ?_
    exact indexed.reference_eq e.1 e.2 (indexed.distinct.find?_eq_some_iff.mpr he)
  have hperm := (List.mergeSort_perm registered.values
    fun a b => a.reference.listedBefore b.reference).map Artifact.reference
  rw [hkeys] at hperm
  exact hperm.nodup_iff.mpr indexed.distinct

end Registry

/-! ## A table for every kind -/

/-- Artifacts kept apart by kind: on the shelf of a kind they stand under id and version. -/
structure Shelves where
  shelf : Kind → Table VersionedId Artifact

namespace Shelves

variable {s : Shelves} {registered : Registry} {kind : Kind} {a : Artifact}

def empty : Shelves := ⟨fun _ => Table.empty⟩

/-- Puts an artifact on the shelf of its kind. -/
def insert (s : Shelves) (a : Artifact) : Shelves :=
  ⟨Function.update s.shelf a.kind ((s.shelf a.kind).insert a.reference.versionedId a)⟩

def ofArtifacts (as : List Artifact) : Shelves := as.foldl insert empty

def artifact? (s : Shelves) (r : Reference) : Option Artifact :=
  (s.shelf r.kind).find? r.versionedId

/-- All artifacts, one shelf after the other. -/
def artifacts (s : Shelves) : List Artifact := Kind.all.flatMap fun kind => (s.shelf kind).values

def size (s : Shelves) : ℕ := (Kind.all.map fun kind => (s.shelf kind).size).sum

theorem size_eq_length (s : Shelves) : s.size = s.artifacts.length := by
  simp [size, artifacts, List.length_flatMap, Table.size, Table.values]

/-- The shelves hold what a registry holds. -/
structure Mirrors (s : Shelves) (registered : Registry) : Prop where
  artifact?_eq : ∀ r, s.artifact? r = registered.find? r
  distinct : ∀ kind, (s.shelf kind).Distinct

theorem mirrors_empty : empty.Mirrors Table.empty where
  artifact?_eq := fun _ => rfl
  distinct := fun _ => Table.distinct_empty

theorem Mirrors.insert (h : s.Mirrors registered) (a : Artifact) :
    (s.insert a).Mirrors (registered.register a) where
  artifact?_eq := by
    rintro ⟨kind, id, version⟩
    rw [Registry.find?_register, ← h.artifact?_eq, artifact?, artifact?, Shelves.insert]
    by_cases hkind : kind = a.kind
    · subst hkind
      simp [Table.find?_insert, Artifact.reference, Reference.versionedId]
    · simp [hkind, Artifact.reference]
  distinct := by
    intro kind
    by_cases hkind : kind = a.kind
    · subst hkind
      simpa [Shelves.insert] using (h.distinct a.kind).insert _ a
    · simpa [Shelves.insert, hkind] using h.distinct kind

theorem mirrors_ofArtifacts (as : List Artifact) :
    (ofArtifacts as).Mirrors (Registry.ofArtifacts as) := by
  suffices H : ∀ (s : Shelves) (registered : Registry), s.Mirrors registered →
      (as.foldl Shelves.insert s).Mirrors (as.foldl Registry.register registered) from
    H _ _ mirrors_empty
  induction as with
  | nil => exact fun _ _ h => h
  | cons a as ih => exact fun _ _ h => ih _ _ (h.insert a)

section Indexed

variable (h : s.Mirrors registered) (indexed : registered.Indexed)

include h indexed

theorem Mirrors.reference_of_mem {e : VersionedId × Artifact} (he : e ∈ (s.shelf kind).entries) :
    registered.find? e.2.reference = some e.2 ∧ e.2.reference = e.1.withKind kind := by
  have hfound : registered.find? (e.1.withKind kind) = some e.2 := by
    rw [← h.artifact?_eq]
    exact (h.distinct kind).find?_eq_some_iff.mpr he
  have href := indexed.reference_eq _ _ hfound
  exact ⟨href ▸ hfound, href⟩

/-- An artifact stands on the shelf of its kind and on no other. -/
theorem Mirrors.mem_values_iff :
    a ∈ (s.shelf kind).values ↔ registered.find? a.reference = some a ∧ a.kind = kind := by
  constructor
  · intro ha
    obtain ⟨e, he, rfl⟩ := List.mem_map.mp ha
    obtain ⟨hfound, href⟩ := h.reference_of_mem indexed he
    exact ⟨hfound, congrArg Reference.kind href⟩
  · rintro ⟨hfound, rfl⟩
    rw [← h.artifact?_eq] at hfound
    exact Table.mem_values_of_find? hfound

theorem Mirrors.nodup_values (kind : Kind) : (s.shelf kind).values.Nodup := by
  have hkeys : (s.shelf kind).values.map (fun a => a.reference.versionedId) =
      (s.shelf kind).keys := by
    rw [Table.values, Table.keys, List.map_map]
    refine List.map_congr_left fun e he => ?_
    exact congrArg Reference.versionedId (h.reference_of_mem indexed he).2
  refine List.Nodup.of_map (fun a => a.reference.versionedId) ?_
  rw [hkeys]
  exact h.distinct kind

/-- Shelf by shelf there are the artifacts that are listed. -/
theorem Mirrors.artifacts_perm : s.artifacts.Perm registered.listed := by
  have hnodup : s.artifacts.Nodup := by
    rw [artifacts, List.nodup_flatMap]
    refine ⟨fun kind _ => h.nodup_values indexed kind, ?_⟩
    have hkinds : Kind.all.Nodup := by decide
    refine hkinds.imp fun hne a ha ha' => hne ?_
    exact ((h.mem_values_iff indexed).mp ha).2.symm.trans ((h.mem_values_iff indexed).mp ha').2
  rw [List.perm_ext_iff_of_nodup hnodup (Registry.nodup_listed indexed).of_map]
  intro a
  have hkind : a.kind ∈ Kind.all := by cases a.kind <;> decide
  simp only [artifacts, List.mem_flatMap, h.mem_values_iff indexed, Registry.mem_listed_iff indexed]
  constructor
  · rintro ⟨kind, -, hfound, -⟩
    exact hfound
  · intro hfound
    exact ⟨a.kind, hkind, hfound, rfl⟩

end Indexed
end Shelves

/-! ## Look-ups -/

namespace LoadedArchive

variable {l : LoadedArchive}

/-- What the look-up for the kind of a reference finds. -/
def lookUp (l : LoadedArchive) (r : Reference) : Except NotLoaded Payload :=
  match r.kind with
  | .evidenceType => (l.evidenceType r.versionedId).map .evidenceType
  | .rule => (l.rule r.versionedId).map .rule
  | .ruleset => (l.ruleset r.versionedId).map .ruleset
  | .task => (l.task r.versionedId).map .task
  | .challenge => (l.challenge r.versionedId).map .challenge

/-- A look-up that takes every payload of its kind answers with what is there. -/
theorem map_payload {α : Type} {kind : Kind} {select : Payload → Option α} {wrap : α → Payload}
    (hselect : ∀ p : Payload, p.kind = kind → (select p).map wrap = some p) {key : VersionedId}
    (hkind : ∀ a, l.artifact? (key.withKind kind) = some a → a.payload.kind = kind) :
    (l.payload kind select key).map wrap = (l.artifact? (key.withKind kind)).elim
      (.error ⟨key.withKind kind⟩) fun a => .ok a.payload := by
  unfold payload
  cases ha : l.artifact? (key.withKind kind) with
  | none => rfl
  | some a =>
    obtain ⟨body, hbody, hwrap⟩ := Option.map_eq_some_iff.mp (hselect a.payload (hkind a ha))
    simp [hbody, Except.map, hwrap]

theorem lookUp_eq (indexed : l.artifacts.Indexed) (r : Reference) :
    l.lookUp r = (l.artifact? r).elim (.error ⟨r⟩) fun a => .ok a.payload := by
  obtain ⟨kind, id, version⟩ := r
  have hkind : ∀ a, l.artifact? ⟨kind, id, version⟩ = some a → a.payload.kind = kind :=
    fun a ha => congrArg Reference.kind (indexed.reference_eq _ a ha)
  cases kind with
  | evidenceType => exact map_payload (by rintro (_ | _ | _ | _ | _) ⟨⟩; rfl) hkind
  | rule => exact map_payload (by rintro (_ | _ | _ | _ | _) ⟨⟩; rfl) hkind
  | ruleset => exact map_payload (by rintro (_ | _ | _ | _ | _) ⟨⟩; rfl) hkind
  | task => exact map_payload (by rintro (_ | _ | _ | _ | _) ⟨⟩; rfl) hkind
  | challenge => exact map_payload (by rintro (_ | _ | _ | _ | _) ⟨⟩; rfl) hkind

/-- However an archive was filled: under a reference stands the artifact inserted last with it, and
the look-up for its kind finds that artifact's payload, or names the reference if there is none.
The artifacts are listed once each, and every reference that was inserted is counted once. With a
table for every kind all of this is the same. -/
theorem lookups_exact (header : ManifestHeader) (inserted : List Artifact) :
    let l : LoadedArchive := ⟨header, Registry.ofArtifacts inserted⟩
    let shelves := Shelves.ofArtifacts inserted
    (∀ r, l.artifact? r = (inserted.filter fun a => a.reference = r).getLast?) ∧
      (∀ r p, l.lookUp r = .ok p ↔ ∃ a, l.artifact? r = some a ∧ a.payload = p) ∧
      (∀ r missing, l.lookUp r = .error missing ↔ l.artifact? r = none ∧ missing = ⟨r⟩) ∧
      (∀ a, a ∈ l.artifacts.listed ↔ l.artifact? a.reference = some a) ∧
      (l.artifacts.listed.map Artifact.reference).Nodup ∧
      l.size = (inserted.map Artifact.reference).dedup.length ∧
      (∀ r, shelves.artifact? r = l.artifact? r) ∧
      shelves.artifacts.Perm l.artifacts.listed ∧ shelves.size = l.size := by
  intro l shelves
  have indexed : l.artifacts.Indexed := Registry.indexed_ofArtifacts inserted
  have mirrors : shelves.Mirrors l.artifacts := Shelves.mirrors_ofArtifacts inserted
  have hperm := mirrors.artifacts_perm indexed
  refine ⟨Registry.find?_ofArtifacts inserted, ?_, ?_, fun a => Registry.mem_listed_iff indexed,
    Registry.nodup_listed indexed, Registry.size_ofArtifacts inserted, mirrors.artifact?_eq, hperm,
    ?_⟩
  · intro r p
    rw [lookUp_eq indexed]
    cases l.artifact? r <;> simp
  · intro r missing
    rw [lookUp_eq indexed]
    cases l.artifact? r <;> simp [eq_comm]
  · rw [shelves.size_eq_length, hperm.length_eq, Registry.listed, List.length_mergeSort]
    simp [Table.values, LoadedArchive.size, Table.size]

end LoadedArchive
end Verdict
