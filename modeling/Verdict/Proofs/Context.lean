import Mathlib.Data.List.Dedup
import Verdict.Compilation.Context
import Verdict.Proofs.Table

/-!
# Assembled contexts

A context is filled by registering artifacts and then frozen. Whatever the order of the calls, every
artifact stands under its own reference, and every reference is registered once.
-/

namespace Verdict

namespace Registry

/-- Every artifact stands under its own reference, once. -/
structure Indexed (r : Registry) : Prop where
  reference_eq : ∀ k a, r.find? k = some a → a.reference = k
  distinct : r.Distinct

theorem indexed_empty : Indexed Table.empty where
  reference_eq := by simp
  distinct := Table.distinct_empty

theorem find?_register (r : Registry) (a : Artifact) (k : Reference) :
    (r.register a).find? k = if k = a.reference then some a else r.find? k :=
  Table.find?_insert r a.reference k a

/-- What is found after an artifact was registered is that artifact or was there before. -/
theorem eq_or_find?_of_register {r : Registry} {a b : Artifact} {k : Reference}
    (h : (r.register a).find? k = some b) : a.reference = k ∧ b = a ∨ r.find? k = some b := by
  rw [find?_register] at h
  split_ifs at h with hk
  · exact .inl ⟨hk.symm, (Option.some.inj h).symm⟩
  · exact .inr h

theorem Indexed.register {r : Registry} (h : r.Indexed) (a : Artifact) :
    (r.register a).Indexed where
  reference_eq := by
    intro k b hb
    rcases eq_or_find?_of_register hb with ⟨hk, rfl⟩ | hb
    · exact hk
    · exact h.reference_eq k b hb
  distinct := h.distinct.insert _ _

theorem indexed_ofArtifacts (as : List Artifact) : (ofArtifacts as).Indexed := by
  suffices H : ∀ r : Registry, r.Indexed → (as.foldl register r).Indexed from H _ indexed_empty
  induction as with
  | nil => exact fun r h => h
  | cons a as ih => exact fun r h => ih _ (h.register a)

theorem contains_iff {r : Registry} {k : Reference} :
    r.contains k = true ↔ ∃ a, r.find? k = some a := by
  rw [Table.contains, Option.isSome_iff_exists]

/-- An artifact is registered if it is found under its own reference. -/
theorem mem_values_iff {r : Registry} (h : r.Indexed) {a : Artifact} :
    a ∈ r.values ↔ r.find? a.reference = some a := by
  refine ⟨fun ha => ?_, Table.mem_values_of_find?⟩
  obtain ⟨⟨k, b⟩, hmem, rfl⟩ := List.mem_map.mp ha
  have hfound := h.distinct.find?_eq_some_iff.mpr hmem
  rwa [h.reference_eq k b hfound]

/-- Artifacts registered in order leave the last one of every reference. -/
theorem find?_ofArtifacts (as : List Artifact) (k : Reference) :
    (ofArtifacts as).find? k = (as.filter fun a => a.reference = k).getLast? := by
  have h := Table.find?_foldl_insert Artifact.reference id as Table.empty k
  rw [Table.find?_empty, Option.or_none, Option.map_id] at h
  exact h

/-- Exactly the references of the artifacts are registered. -/
theorem exists_find?_ofArtifacts_iff {as : List Artifact} {r : Reference} :
    (∃ a, (ofArtifacts as).find? r = some a) ↔ r ∈ as.map Artifact.reference := by
  rw [find?_ofArtifacts, ← Option.isSome_iff_exists, List.getLast?_isSome, Ne,
    List.filter_eq_nil_iff]
  simp

/-- Every reference is counted once. -/
theorem size_ofArtifacts (as : List Artifact) :
    (ofArtifacts as).size = (as.map Artifact.reference).dedup.length := by
  have hp : (ofArtifacts as).keys.Perm (as.map Artifact.reference).dedup := by
    rw [List.perm_ext_iff_of_nodup (indexed_ofArtifacts as).distinct (List.nodup_dedup _)]
    intro r
    rw [Table.mem_keys_iff, contains_iff, exists_find?_ofArtifacts_iff, List.mem_dedup]
  rw [Table.size_eq_length_keys, hp.length_eq]

end Registry

namespace Context

/-- The contexts that registering and freezing lead to. -/
inductive Assembled : Context → Prop
  | empty : Assembled Context.empty
  | register {c c' : Context} {a : Artifact} : Assembled c → c.register a = .ok c' → Assembled c'
  | freeze {c : Context} : Assembled c → Assembled c.freeze

theorem register_eq_ok_iff {c c' : Context} {a : Artifact} :
    c.register a = .ok c' ↔ c.phase = .running ∧ c' = { c with symbols := c.symbols.register a } := by
  unfold register
  cases h : c.phase <;> simp [eq_comm]

theorem Assembled.indexed {c : Context} (h : c.Assembled) : c.symbols.Indexed := by
  induction h with
  | empty => exact Registry.indexed_empty
  | register _ hr ih =>
    obtain ⟨-, rfl⟩ := register_eq_ok_iff.mp hr
    exact ih.register _
  | freeze _ ih => exact ih

theorem assembled_ofArtifacts (as : List Artifact) (phase : Phase) :
    Assembled ⟨Registry.ofArtifacts as, phase⟩ := by
  have running : ∀ r : Registry, Assembled ⟨r, .running⟩ →
      Assembled ⟨as.foldl Registry.register r, .running⟩ := by
    induction as with
    | nil => exact fun r h => h
    | cons a as ih =>
      intro r h
      have hr : Context.register ⟨r, .running⟩ a = .ok ⟨r.register a, .running⟩ := rfl
      exact ih _ (h.register hr)
  cases phase with
  | running => exact running _ .empty
  | frozen => exact (running _ .empty).freeze

theorem resolve_eq_ok_iff {c : Context} {r : Reference} {a : Artifact} :
    c.resolve r = .ok a ↔ c.symbols.find? r = some a := by
  unfold resolve
  cases c.symbols.find? r <;> simp

theorem contains_iff {c : Context} {r : Reference} :
    c.contains r = true ↔ ∃ a, c.resolve r = .ok a := by
  simp only [resolve_eq_ok_iff]
  exact Registry.contains_iff

end Context
end Verdict
