import Verdict.Proofs.Compilation.Portable

/-!
# Envelopes that can be read

A document may be nested more deeply than any text, if it was not read from one. What it compiles to
may then be written and not be read again. But if its envelope can be read at all, nothing is lost.
-/

namespace Verdict

open Results

/-! ## Depth -/

namespace Json

/-- A value that is read whole is nested no deeper than the reader goes. -/
theorem Storable.of_toJson {m n : ℕ} {j v : Json} (h : j.Storable m)
    (hv : Draft.toJson n j.toDraft = .ok v) : j.Storable n := by
  induction h generalizing n v with
  | null => exact .null
  | bool b => exact .bool b
  | num hi => exact .num hi
  | str s => exact .str s
  | @arr _ xs _ ih =>
    obtain ⟨n, ys, rfl, hys, -⟩ := exists_items_of_toJson hv
    rw [toJsonItems_eq_ok_iff, toDraftItems_eq_map, List.forall₂_map_left_iff] at hys
    refine .arr fun x hx => ?_
    obtain ⟨y, -, hy⟩ := exists_of_forall₂ hys.flip hx
    exact ih x hx hy
  | @obj _ ms hnodup _ ih =>
    obtain ⟨n, ys, rfl, hys, -⟩ := exists_members_of_toJson hv
    obtain ⟨read, hread, -⟩ := toJsonMembers_eq_ok_iff.mp hys
    rw [toDraftMembers_eq_map, List.forall₂_map_left_iff] at hread
    refine .obj hnodup fun m hm => ?_
    obtain ⟨y, -, -, hy⟩ := exists_of_forall₂ hread.flip hm
    exact ih m hm hy

end Json

/-! ## Envelopes -/

namespace Artifact

/-- An envelope is read only if its payload is nested no deeper than the reader goes. -/
theorem storable_payload_of_ofText_pretty {a b : Artifact} {n : ℕ}
    (hs : a.payload.toJson.Storable n) (h : ofText a.toJson.pretty = .ok b) :
    a.payload.toJson.Storable payloadDepth := by
  have henvelope : a.toJson.Storable (max n 2 + 1) := by
    refine .obj (by simp) ?_
    simp only [List.forall_mem_cons]
    refine ⟨.str _, .num (Json.inRange_uint32 a.version), .str _,
      (a.metadata.storable_toJson 0).mono (by omega), Json.Storable.mono (m := 2) (by omega) ?_,
      hs.mono (by omega), by simp⟩
    refine .arr fun x hx => ?_
    obtain ⟨r, -, rfl⟩ := List.mem_map.mp hx
    exact r.storable_toJson 0
  rw [ofText, Json.readWith_pretty _ henvelope.inRange] at h
  obtain ⟨fields, hfields, -⟩ := bind_eq_ok_iff.mp h
  have hcheck := Json.check_of_record hfields (m := ("payload", a.payload.toJson)) (by simp) rfl
  obtain ⟨v, hv, -⟩ := map_eq_ok_iff.mp hcheck
  exact hs.of_toJson hv

end Artifact

/-! ## What is compiled -/

/-- What is compiled from any value is portable if its envelope can be read. -/
theorem portable_of_compile_of_ofText {n : ℕ} {kind : Kind} {registered : Registry}
    {builtAt : UInt64} {source : Json} (hs : source.Storable n) {a b : Artifact}
    (h : compile kind registered builtAt source = .ok a)
    (hread : Artifact.ofText a.toJson.pretty = .ok b) : a.Portable := by
  obtain ⟨d, c, hd, hc, rfl⟩ := compile_eq_ok_iff.mp h
  obtain ⟨k, -, hspec⟩ := Document.storable_spec hs hd
  exact Compilation.portable_of_body hspec hc fun hruleset =>
    Artifact.storable_payload_of_ofText_pretty (Compilation.storable_ruleset hspec hruleset) hread

end Verdict
