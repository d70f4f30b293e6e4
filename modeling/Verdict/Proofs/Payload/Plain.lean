import Verdict.Payload.Basic
import Verdict.Proofs.Json.Records

/-!
# Payloads without trees, read back

Payloads are read from values that were read before, so their members are sorted by key.
-/

namespace Verdict

open Json (sortKeys sortKeysMembers toDraft)
open Json.Draft (Field)
open Results (bind_of_ok)

namespace VersionedId

theorem sortKeys_toJson (v : VersionedId) : v.toJson.sortKeys = v.toJson := rfl

theorem ofDraft_toJson (v : VersionedId) : ofDraft v.toJson.toDraft = .ok v := by
  have hid := Json.text_str v.id
  have hversion := Json.uint32_int v.version
  refine bind_of_ok (Json.record_obj (by simp) ?_ (by simp [Field.required])) ?_
  · simp only [List.forall_mem_cons]
    exact ⟨Json.fits_required rfl hid, Json.fits_required rfl hversion, by simp⟩
  · exact bind_of_ok hid (bind_of_ok hversion rfl)

end VersionedId

namespace Action

theorem sortKeys_toJson (a : Action) :
    a.toJson.sortKeys = .obj [("emit", .str a.emit), ("on", .str a.on.name)] := rfl

theorem ofDraft_sortKeys (a : Action) : ofDraft a.toJson.sortKeys.toDraft = .ok a := by
  have hemit := Json.text_str a.emit
  have hon : (toDraft (.str a.on.name)).choice Trigger.alternatives = .ok a.on :=
    Json.choice_str (by cases a.on <;> rfl)
  rw [sortKeys_toJson]
  refine bind_of_ok (Json.record_obj (by simp) ?_ (by simp [Field.required])) ?_
  · simp only [List.forall_mem_cons]
    exact ⟨Json.fits_required rfl hemit, Json.fits_required rfl hon, by simp⟩
  · exact bind_of_ok hon (bind_of_ok hemit rfl)

end Action

namespace Task

theorem sortKeys_toJson (t : Task) :
    t.toJson.sortKeys = .obj [("actions", .arr (t.actions.map fun a => a.toJson.sortKeys)),
      ("description", .str t.description), ("resultType", .str t.resultType.name),
      ("rulesetRef", t.ruleset.toJson)] := by
  simp +decide [toJson, sortKeys, sortKeysMembers, insertSorted, Json.sortKeysItems_eq_map,
    VersionedId.sortKeys_toJson]

theorem ofDraft_sortKeys (t : Task) : ofDraft t.toJson.sortKeys.toDraft = .ok t := by
  have hactions := Json.list_arr fun a (_ : a ∈ t.actions) => a.ofDraft_sortKeys
  have hdescription := Json.text_str t.description
  have htype : (toDraft (.str t.resultType.name)).choice ResultType.alternatives =
      .ok t.resultType := Json.choice_str (by cases t.resultType <;> rfl)
  have hruleset := t.ruleset.ofDraft_toJson
  rw [sortKeys_toJson]
  refine bind_of_ok (Json.record_obj (by simp) ?_ (by simp [Field.required, Field.defaulted])) ?_
  · simp only [List.forall_mem_cons]
    exact ⟨Json.fits_defaulted rfl hactions, Json.fits_defaulted rfl hdescription,
      Json.fits_required rfl htype, Json.fits_required rfl hruleset, by simp⟩
  · exact bind_of_ok hruleset (bind_of_ok htype (bind_of_ok hactions (bind_of_ok hdescription rfl)))

end Task

namespace Challenge

theorem sortKeys_toJson (c : Challenge) :
    c.toJson.sortKeys = .obj [("tasks", .arr (c.tasks.map VersionedId.toJson))] := by
  simp [toJson, sortKeys, sortKeysMembers, insertSorted, Json.sortKeysItems_eq_map,
    VersionedId.sortKeys_toJson]

theorem ofDraft_sortKeys (c : Challenge) : ofDraft c.toJson.sortKeys.toDraft = .ok c := by
  have htasks := Json.list_arr fun t (_ : t ∈ c.tasks) => t.ofDraft_toJson
  rw [sortKeys_toJson]
  refine bind_of_ok (Json.record_obj (by simp) ?_ (by simp [Field.required])) ?_
  · simp only [List.forall_mem_cons]
    exact ⟨Json.fits_required rfl htasks, by simp⟩
  · exact bind_of_ok htasks rfl

end Challenge
end Verdict
