import Verdict.Proofs.Payload.Plain
import Verdict.Proofs.Table

/-!
# Evidence types read back

The declared fields are read back sorted by name. They are the same map as long as no field is
declared twice.
-/

namespace Verdict

open Json (sortKeys sortKeysMembers toDraft)
open Json.Draft (Field)
open Results

namespace EvidenceField

theorem sortKeys_toJson (f : EvidenceField) :
    f.toJson.sortKeys = .obj [("name", .str f.name), ("required", .bool f.required),
      ("valueType", .str f.valueType.name)] := rfl

theorem ofDraft_sortKeys (f : EvidenceField) : ofDraft f.toJson.sortKeys.toDraft = .ok f := by
  have hname := Json.text_str f.name
  have hrequired := Json.flag_bool f.required
  have htype : (toDraft (.str f.valueType.name)).choice ValueType.alternatives =
      .ok f.valueType := Json.choice_str (by cases f.valueType <;> rfl)
  rw [sortKeys_toJson]
  refine bind_of_ok (Json.record_obj (by simp) ?_ (by simp [Field.required])) ?_
  · simp only [List.forall_mem_cons]
    exact ⟨Json.fits_required rfl hname, Json.fits_required rfl hrequired,
      Json.fits_required rfl htype, by simp⟩
  · exact bind_of_ok hname (bind_of_ok htype (bind_of_ok hrequired rfl))

end EvidenceField

namespace EvidenceType

theorem sortKeys_toJson {t : EvidenceType} (h : t.fields.Distinct) :
    ∃ es : List (String × EvidenceField), es.Perm t.fields.entries ∧
      t.toJson.sortKeys = .obj [("fields", .obj (es.map fun e => (e.1, e.2.toJson.sortKeys)))] := by
  have hkeys : ((t.fields.entries.map fun e => (e.1, e.2.toJson)).map (·.1)).Nodup := by
    simpa [Table.Distinct, Table.keys, Function.comp_def] using h
  have hp := Json.sortKeysMembers_perm hkeys
  rw [List.map_map] at hp
  obtain ⟨es, hes, hperm⟩ := (congrFun₂ (List.eq_map_comp_perm _) _ _).mpr hp
  refine ⟨es, hperm, ?_⟩
  rw [toJson, sortKeys, sortKeysMembers, sortKeysMembers, sortKeys, hes]
  rfl

theorem fieldsOfDraft_toDraft (es : List (String × EvidenceField)) :
    fieldsOfDraft (toDraft (.obj (es.map fun e => (e.1, e.2.toJson.sortKeys)))) =
      .ok (Table.ofList es) := by
  have hmembers : (Json.toDraftMembers (es.map fun e => (e.1, e.2.toJson.sortKeys))).mapM
      (fun m => do return (← m.1.value, ← EvidenceField.ofDraft m.2)) = .ok es := by
    rw [Json.toDraftMembers_eq_map, mapM_eq_ok_iff, List.map_map, List.forall₂_map_left_iff,
      List.forall₂_same]
    intro e _
    exact bind_of_ok rfl (bind_of_ok e.2.ofDraft_sortKeys rfl)
  rw [toDraft, fieldsOfDraft, hmembers]
  rfl

/-- An evidence type is read back with the same fields, in the order of their names. -/
theorem ofDraft_sortKeys {t : EvidenceType} (h : t.fields.Distinct) :
    ∃ t', ofDraft t.toJson.sortKeys.toDraft = .ok t' ∧ t.fields.sameEntries t'.fields = true := by
  obtain ⟨es, hperm, hsort⟩ := sortKeys_toJson h
  have hfields := fieldsOfDraft_toDraft es
  refine ⟨⟨Table.ofList es⟩, ?_, ?_⟩
  · rw [hsort]
    refine bind_of_ok (Json.record_obj (by simp) ?_ (by simp [Field.required])) ?_
    · simp only [List.forall_mem_cons]
      exact ⟨Json.fits_required rfl hfields, by simp⟩
    · exact bind_of_ok hfields rfl
  · have hkeys : (es.map (·.1)).Nodup := (hperm.map _).nodup_iff.mpr h
    rw [Table.ofList_eq hkeys]
    exact h.sameEntries_of_perm hperm

end EvidenceType
end Verdict
