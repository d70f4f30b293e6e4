import Verdict.Proofs.Payload.EvidenceType
import Verdict.Proofs.Payload.Expression
import Verdict.Proofs.Payload.Rule

/-!
# Portable payloads

A payload can be stored in an envelope and read back if its fields are declared once, its literal is
one that a text can hold, and its tree is not nested too deeply for the reader. What was read from an
envelope is of this kind.
-/

namespace Verdict

open Json (sortKeys toDraft)
open Results

/-- How deep a payload may be nested, inside the object of its envelope. -/
def payloadDepth : ℕ := Json.Draft.depthLimit - 1

namespace Payload

/-- What has to hold of a payload so that nothing of it is lost in an envelope. -/
def Portable : Payload → Prop
  | evidenceType t => t.fields.Distinct
  | rule r => r.value.Portable
  | ruleset r => r.toJson.Storable payloadDepth
  | task _ => True
  | challenge _ => True

end Payload

/-! ## What is written -/

theorem VersionedId.storable_toJson (n : ℕ) (v : VersionedId) : v.toJson.Storable (n + 1) := by
  refine .obj (by simp) ?_
  simp only [List.forall_mem_cons]
  exact ⟨.str _, .num (Json.inRange_uint32 v.version), by simp⟩

theorem Action.storable_toJson (n : ℕ) (a : Action) : a.toJson.Storable (n + 1) := by
  refine .obj (by simp) ?_
  simp only [List.forall_mem_cons]
  exact ⟨.str _, .str _, by simp⟩

theorem Task.storable_toJson (n : ℕ) (t : Task) : t.toJson.Storable (n + 3) := by
  refine .obj (by simp) ?_
  simp only [List.forall_mem_cons]
  refine ⟨t.ruleset.storable_toJson (n + 1), .str _, .arr fun x hx => ?_, .str _, by simp⟩
  obtain ⟨a, -, rfl⟩ := List.mem_map.mp hx
  exact a.storable_toJson n

theorem Challenge.storable_toJson (n : ℕ) (c : Challenge) : c.toJson.Storable (n + 3) := by
  refine .obj (by simp) ?_
  simp only [List.forall_mem_cons]
  refine ⟨.arr fun x hx => ?_, by simp⟩
  obtain ⟨t, -, rfl⟩ := List.mem_map.mp hx
  exact t.storable_toJson n

theorem Scalar.Portable.storable {s : Scalar} (h : s.Portable) (n : ℕ) : s.toJson.Storable n := by
  cases s with
  | boolean b => exact .bool b
  | integer i => exact .num h.inRange
  | decimal d => exact .num h.inRange
  | text s => exact .str s

theorem Rule.storable_toJson (n : ℕ) {r : Rule} (h : r.value.Portable) :
    r.toJson.Storable (n + 1) := by
  refine .obj (by simp) ?_
  simp only [List.forall_mem_cons]
  exact ⟨.str _, .str _, h.storable n, .str _, by simp⟩

theorem EvidenceField.storable_toJson (n : ℕ) (f : EvidenceField) : f.toJson.Storable (n + 1) := by
  refine .obj (by simp) ?_
  simp only [List.forall_mem_cons]
  exact ⟨.str _, .str _, .bool _, by simp⟩

theorem EvidenceType.storable_toJson (n : ℕ) {t : EvidenceType} (h : t.fields.Distinct) :
    t.toJson.Storable (n + 3) := by
  refine .obj (by simp) ?_
  simp only [List.forall_mem_cons]
  refine ⟨.obj ?_ fun m hm => ?_, by simp⟩
  · simpa [Table.Distinct, Table.keys, Function.comp_def] using h
  · obtain ⟨e, -, rfl⟩ := List.mem_map.mp hm
    exact e.2.storable_toJson n

namespace Payload

/-- A portable payload can be stored inside an envelope. -/
theorem Portable.storable {p : Payload} (h : p.Portable) : p.toJson.Storable payloadDepth := by
  cases p with
  | evidenceType t => exact (t.storable_toJson 0 h).mono (by decide)
  | rule r => exact (r.storable_toJson 0 h).mono (by decide)
  | ruleset r => exact h
  | task t => exact (t.storable_toJson 0).mono (by decide)
  | challenge c => exact (c.storable_toJson 0).mono (by decide)

/-- A portable payload is read back as the same payload. -/
theorem Portable.ofJson?_sortKeys {p : Payload} (h : p.Portable) :
    ∃ q, ofJson? p.kind p.toJson.sortKeys = some q ∧ q.kind = p.kind ∧ p.same q = true := by
  cases p with
  | evidenceType t =>
    obtain ⟨t', ht, hsame⟩ := EvidenceType.ofDraft_sortKeys h
    refine ⟨.evidenceType t', ?_, rfl, hsame⟩
    change (EvidenceType.ofDraft t.toJson.sortKeys.toDraft).toOption.map _ = _
    rw [ht]
    rfl
  | rule r =>
    refine ⟨.rule r, ?_, rfl, by simp [same]⟩
    change (Rule.ofDraft r.toJson.sortKeys.toDraft).toOption.map _ = _
    rw [Rule.ofDraft_sortKeys h]
    rfl
  | ruleset r =>
    refine ⟨.ruleset r, ?_, rfl, by simp [same]⟩
    have hstorable : r.toJson.Storable Json.Draft.depthLimit := h.mono (by decide)
    change (Ruleset.ofDraft r.toJson.sortKeys.toDraft).toOption.map _ = _
    rw [Ruleset.ofDraft_sortKeys hstorable]
    rfl
  | task t =>
    refine ⟨.task t, ?_, rfl, by simp [same]⟩
    change (Task.ofDraft t.toJson.sortKeys.toDraft).toOption.map _ = _
    rw [Task.ofDraft_sortKeys]
    rfl
  | challenge c =>
    refine ⟨.challenge c, ?_, rfl, by simp [same]⟩
    change (Challenge.ofDraft c.toJson.sortKeys.toDraft).toOption.map _ = _
    rw [Challenge.ofDraft_sortKeys]
    rfl

end Payload

/-! ## What is read -/

theorem EvidenceType.distinct_of_ofDraft {d : Json.Draft} {t : EvidenceType}
    (h : ofDraft d = .ok t) : t.fields.Distinct := by
  obtain ⟨seen, -, h⟩ := bind_eq_ok_iff.mp h
  obtain ⟨fields, hfields, h⟩ := bind_eq_ok_iff.mp h
  cases h
  unfold Json.Draft.Fields.get at hfields
  split at hfields
  case h_1 d' _ =>
    unfold fieldsOfDraft at hfields
    split at hfields
    · obtain ⟨es, -, hes⟩ := bind_eq_ok_iff.mp hfields
      obtain ⟨-, -, hes⟩ := bind_eq_ok_iff.mp hes
      cases hes
      exact Table.distinct_empty.foldl_insert _ _ es
    · exact absurd hfields (Json.refuse_ne_ok _ _)
  case h_2 => cases hfields

theorem Rule.portable_of_ofDraft {d : Json.Draft} (hd : d.InRange) {r : Rule}
    (h : ofDraft d = .ok r) : r.value.Portable := by
  obtain ⟨seen, hseen, h⟩ := bind_eq_ok_iff.mp h
  obtain ⟨input, -, h⟩ := bind_eq_ok_iff.mp h
  obtain ⟨operator, -, h⟩ := bind_eq_ok_iff.mp h
  obtain ⟨value, hvalue, h⟩ := bind_eq_ok_iff.mp h
  obtain ⟨ruleType, -, h⟩ := bind_eq_ok_iff.mp h
  cases h
  obtain ⟨d', hchild, hd'⟩ := Json.exists_child_of_get hseen hvalue
  exact Scalar.portable_of_ofDraft (hd.child hchild) hd'

theorem Expression.ofNode?_of_ofDraft {depth : ℕ} {d : Json.Draft} {e : Expression}
    (h : ofDraft depth d = .ok e) : ofNode? d = some e := by
  have refused : ∀ {y : Except Json.Flaw Expression}, (d.refuse >>= fun _ : Unit => y) = .ok e →
      ofNode? d = some e := by
    intro y hy
    obtain ⟨a, ha, -⟩ := bind_eq_ok_iff.mp hy
    exact absurd ha (Json.refuse_ne_ok d a)
  cases d with
  | object ms close =>
    obtain ⟨shape, -, h⟩ := bind_eq_ok_iff.mp h
    obtain ⟨-, -, h⟩ := bind_eq_ok_iff.mp h
    split_ifs at h
    · cases h
    · split at h
      case h_1 e' he =>
        cases h
        exact he
      case h_2 => cases h
  | array ds close =>
    cases ds with
    | nil =>
      obtain ⟨-, -, h⟩ := bind_eq_ok_iff.mp h
      cases h
    | cons tag fields =>
      obtain ⟨-, -, h⟩ := bind_eq_ok_iff.mp h
      obtain ⟨-, -, h⟩ := bind_eq_ok_iff.mp h
      obtain ⟨_, -, h⟩ := bind_eq_ok_iff.mp h
      split at h
      case h_1 e' he =>
        cases h
        exact he
      case h_2 => cases h
  | _ => exact refused h

theorem Ruleset.storable_of_ofDraft {n : ℕ} {j : Json} (hj : j.Storable n) {r : Ruleset}
    (h : ofDraft j.toDraft = .ok r) : r.toJson.Storable n := by
  obtain ⟨seen, hseen, h⟩ := bind_eq_ok_iff.mp h
  obtain ⟨root, hroot, h⟩ := bind_eq_ok_iff.mp h
  cases h
  obtain ⟨d', hchild, hd'⟩ := Json.exists_child_of_get hseen hroot
  obtain ⟨k, v, rfl, rfl, hv⟩ := hj.child hchild
  have hnode := Expression.ofNode?_of_ofDraft hd'
  refine .obj (by simp) ?_
  simp only [List.forall_mem_cons]
  exact ⟨Expression.storable_of_ofNode? hv hnode, by simp⟩

namespace Payload

/-- A payload that was read from a value that can be stored is portable. -/
theorem portable_of_ofJson? {kind : Kind} {j : Json} (hj : j.Storable payloadDepth) {p : Payload}
    (h : ofJson? kind j = some p) : p.Portable := by
  unfold ofJson? at h
  cases kind with
  | evidenceType =>
    obtain ⟨t, ht, rfl⟩ := Option.map_eq_some_iff.mp h
    exact EvidenceType.distinct_of_ofDraft (toOption_eq_some_iff.mp ht)
  | rule =>
    obtain ⟨r, hr, rfl⟩ := Option.map_eq_some_iff.mp h
    exact Rule.portable_of_ofDraft hj.inRange_toDraft (toOption_eq_some_iff.mp hr)
  | ruleset =>
    obtain ⟨r, hr, rfl⟩ := Option.map_eq_some_iff.mp h
    exact Ruleset.storable_of_ofDraft hj (toOption_eq_some_iff.mp hr)
  | task =>
    obtain ⟨t, -, rfl⟩ := Option.map_eq_some_iff.mp h
    trivial
  | challenge =>
    obtain ⟨c, -, rfl⟩ := Option.map_eq_some_iff.mp h
    trivial

end Payload
end Verdict
