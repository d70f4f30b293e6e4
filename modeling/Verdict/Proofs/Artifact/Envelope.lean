import Verdict.Artifact.Basic
import Verdict.Proofs.Payload.Portable

/-!
# Envelopes read back

An artifact with a portable payload is written to an envelope from which the same artifact is read.
-/

namespace Verdict

open Json (toDraft)
open Json.Draft (Field)
open Results

namespace Reference

theorem storable_toJson (n : ℕ) (r : Reference) : r.toJson.Storable (n + 1) := by
  refine .obj (by simp) ?_
  simp only [List.forall_mem_cons]
  exact ⟨.str _, .str _, .num (Json.inRange_uint32 r.version), by simp⟩

theorem choice_kind (k : Kind) : (toDraft (.str k.name)).choice Kind.alternatives = .ok k :=
  Json.choice_str (by cases k <;> rfl)

theorem ofDraft_toJson (r : Reference) : ofDraft r.toJson.toDraft = .ok r := by
  have hkind := choice_kind r.kind
  have hid := Json.text_str r.id
  have hversion := Json.uint32_int r.version
  refine bind_of_ok (Json.record_obj (by simp) ?_ (by simp [Field.required])) ?_
  · simp only [List.forall_mem_cons]
    exact ⟨Json.fits_required rfl hkind, Json.fits_required rfl hid,
      Json.fits_required rfl hversion, by simp⟩
  · exact bind_of_ok hkind (bind_of_ok hid (bind_of_ok hversion rfl))

end Reference

namespace Metadata

theorem storable_toJson (n : ℕ) (m : Metadata) : m.toJson.Storable (n + 1) := by
  refine .obj (by simp) ?_
  simp only [List.forall_mem_cons]
  exact ⟨.str _, .num (Json.inRange_uint64 m.compiledAt), .str _, by simp⟩

theorem ofDraft_toJson (m : Metadata) : ofDraft m.toJson.toDraft = .ok m := by
  have hcompiler := Json.text_str m.compilerVersion
  have htime := Json.uint64_int m.compiledAt
  have hhash := Json.text_str m.contentHash
  refine bind_of_ok (Json.record_obj (by simp) ?_ (by simp [Field.required])) ?_
  · simp only [List.forall_mem_cons]
    exact ⟨Json.fits_required rfl hcompiler, Json.fits_required rfl htime,
      Json.fits_required rfl hhash, by simp⟩
  · exact bind_of_ok hcompiler (bind_of_ok htime (bind_of_ok hhash rfl))

end Metadata

namespace Artifact

theorem payload_same {a b : Artifact} (h : a.same b = true) : a.payload.same b.payload = true := by
  rw [same, Bool.and_eq_true] at h
  exact h.2

/-- Nothing of the artifact is lost in an envelope. -/
def Portable (a : Artifact) : Prop := a.payload.Portable

theorem Portable.storable {a : Artifact} (h : a.Portable) :
    a.toJson.Storable Json.Draft.depthLimit := by
  refine .obj (by simp) ?_
  simp only [List.forall_mem_cons]
  refine ⟨.str _, .num (Json.inRange_uint32 a.version), .str _, a.metadata.storable_toJson _,
    .arr fun x hx => ?_, Payload.Portable.storable h, by simp⟩
  obtain ⟨r, -, rfl⟩ := List.mem_map.mp hx
  exact r.storable_toJson _

/-- An envelope is read back as the same artifact. -/
theorem Portable.ofDraft_toJson {a : Artifact} (h : a.Portable) :
    ∃ b, ofDraft a.toJson.toDraft = .ok b ∧ b.reference = a.reference ∧ a.same b = true := by
  obtain ⟨q, hq, hkind, hsame⟩ := Payload.Portable.ofJson?_sortKeys h
  have hid := Json.text_str a.id
  have hversion := Json.uint32_int a.version
  have hchoice := Reference.choice_kind a.kind
  have hmetadata := a.metadata.ofDraft_toJson
  have hdependencies := Json.list_arr fun r (_ : r ∈ a.dependencies) => r.ofDraft_toJson
  have hpayload := Json.toJson_toDraft (Payload.Portable.storable h)
  refine ⟨⟨a.id, a.version, a.metadata, a.dependencies, q⟩, ?_, ?_, ?_⟩
  · refine bind_of_ok (Json.record_obj (by simp) ?_
      (by simp [Field.required, Field.defaulted])) ?_
    · simp only [List.forall_mem_cons]
      exact ⟨Json.fits_required rfl hid, Json.fits_required rfl hversion,
        Json.fits_required rfl hchoice, Json.fits_required rfl hmetadata,
        Json.fits_defaulted rfl hdependencies, Json.fits_required rfl hpayload, by simp⟩
    · refine bind_of_ok hchoice (bind_of_ok hpayload ?_)
      rw [show Payload.ofJson? a.kind a.payload.toJson.sortKeys = some q from hq]
      exact bind_of_ok hid (bind_of_ok hversion (bind_of_ok hmetadata
        (bind_of_ok hdependencies rfl)))
  · simp [reference, kind, hkind]
  · simp [same, hsame]

/-- The text of an envelope is read back as the same artifact. -/
theorem Portable.ofText_pretty {a : Artifact} (h : a.Portable) :
    ∃ b, ofText a.toJson.pretty = .ok b ∧ b.reference = a.reference ∧ a.same b = true := by
  rw [ofText, Json.readWith_pretty _ h.storable.inRange]
  exact h.ofDraft_toJson

/-- It makes no difference how the text of an envelope is laid out. -/
theorem Portable.ofText_compact {a : Artifact} (h : a.Portable) :
    ofText a.toJson.compact = ofText a.toJson.pretty := by
  rw [ofText, ofText, Json.readWith_compact _ h.storable.inRange,
    Json.readWith_pretty _ h.storable.inRange]

/-- The payload of an artifact that was read from an envelope was read from a value that stands in
it. -/
theorem exists_payload_of_ofText {text : String} {a : Artifact} (h : ofText text = .ok a) :
    ∃ (d : Json.Draft) (j : Json) (kind : Kind), d.InRange ∧
      Json.Draft.toJson payloadDepth d = .ok j ∧ Payload.ofJson? kind j = some a.payload := by
  obtain ⟨d, hd, h⟩ := Json.readWith_eq_ok h
  obtain ⟨seen, hseen, h⟩ := bind_eq_ok_iff.mp h
  obtain ⟨kind, -, h⟩ := bind_eq_ok_iff.mp h
  obtain ⟨j, hj, h⟩ := bind_eq_ok_iff.mp h
  split at h
  case h_1 body hbody =>
    obtain ⟨id, -, h⟩ := bind_eq_ok_iff.mp h
    obtain ⟨version, -, h⟩ := bind_eq_ok_iff.mp h
    obtain ⟨metadata, -, h⟩ := bind_eq_ok_iff.mp h
    obtain ⟨dependencies, -, h⟩ := bind_eq_ok_iff.mp h
    cases h
    obtain ⟨d', hchild, hd'⟩ := Json.exists_child_of_get hseen hj
    exact ⟨d', j, kind, hd.child hchild, hd', hbody⟩
  case h_2 => cases h

/-- An artifact that was read from an envelope is portable. -/
theorem portable_of_ofText {text : String} {a : Artifact} (h : ofText text = .ok a) :
    a.Portable := by
  obtain ⟨d, j, kind, hd, hj, hpayload⟩ := exists_payload_of_ofText h
  exact Payload.portable_of_ofJson? (Json.storable_of_toJson hd hj) hpayload

end Artifact
end Verdict
