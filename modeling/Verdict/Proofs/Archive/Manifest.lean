import Verdict.Archive.Manifest
import Verdict.Proofs.Json.Records

/-!
# Manifests read back

A manifest is written as a record of numbers and texts, so nothing of it is lost in its text.
-/

namespace Verdict

open Json.Draft (Field)
open Results

namespace ManifestHeader

theorem ofDraft_toJson (h : ManifestHeader) : ofDraft h.toJson.toDraft = .ok h := by
  have hid := Json.text_str h.rootId
  have hversion := Json.uint32_int h.rootVersion
  have htime := Json.uint64_int h.compiledAt
  have hcompiler := Json.text_str h.compilerVersion
  refine bind_of_ok (Json.record_obj (by simp) ?_ (by simp [Field.required])) ?_
  · simp only [List.forall_mem_cons]
    exact ⟨Json.fits_required rfl hid, Json.fits_required rfl hversion,
      Json.fits_required rfl htime, Json.fits_required rfl hcompiler, by simp⟩
  · exact bind_of_ok hid (bind_of_ok hversion (bind_of_ok htime (bind_of_ok hcompiler rfl)))

end ManifestHeader

namespace Manifest

theorem inRange_toJson (m : Manifest) : m.toJson.InRange := by
  rw [toJson, ManifestHeader.toJson, Json.inRange_obj]
  simp only [List.forall_mem_cons]
  refine ⟨?_, ?_, by simp⟩
  · rw [Json.inRange_obj]
    simp only [List.forall_mem_cons]
    exact ⟨trivial, Json.inRange_uint32 _, Json.inRange_uint64 _, trivial, by simp⟩
  · rw [Json.inRange_arr]
    intro x hx
    obtain ⟨path, -, rfl⟩ := List.mem_map.mp hx
    trivial

/-- The text of a manifest is read back as the same manifest. -/
theorem ofText_pretty (m : Manifest) : ofText m.toJson.pretty = .ok m := by
  have hheader := m.header.ofDraft_toJson
  have hfiles := Json.list_arr fun path (_ : path ∈ m.files) => Json.text_str path
  rw [ofText, Json.readWith_pretty _ m.inRange_toJson]
  refine bind_of_ok (Json.record_obj (by simp) ?_ (by simp [Field.required])) ?_
  · simp only [List.forall_mem_cons]
    exact ⟨Json.fits_required rfl hheader, Json.fits_required rfl hfiles, by simp⟩
  · exact bind_of_ok hheader (bind_of_ok hfiles rfl)

end Manifest

end Verdict
