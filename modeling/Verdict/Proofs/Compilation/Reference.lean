import Verdict.Compilation.Expression
import Verdict.Proofs.Source

/-!
# What a reference says

A document refers to an artifact by an object with an id and perhaps a version; a rule may also be
referred to by its id alone, with the version beside it. Each reader of references accepts exactly
what says so.
-/

namespace Verdict

open Results

/-! ## Members -/

namespace Json

theorem mem_of_lookup {key : String} {ms : List (String × Json)} {v : Json}
    (h : Json.lookup key ms = some v) : (key, v) ∈ ms := by
  induction ms with
  | nil => cases h
  | cons m ms ih =>
    obtain ⟨k, w⟩ := m
    rw [Json.lookup] at h
    split_ifs at h with hk
    · cases h
      exact hk ▸ List.mem_cons_self
    · exact List.mem_cons_of_mem _ (ih h)

theorem bind_asString?_eq_some_iff {value : Option Json} {s : String} :
    value.bind asString? = some s ↔ value = some (.str s) := by
  rcases value with _ | _ | _ | _ | _ | _ | _ <;> simp [asString?]

theorem bind_asArray?_eq_some_iff {value : Option Json} {xs : List Json} :
    value.bind asArray? = some xs ↔ value = some (.arr xs) := by
  rcases value with _ | _ | _ | _ | _ | _ | _ <;> simp [asArray?]

end Json

theorem requiredText_eq_ok_iff {members : List (String × Json)} {field s : String} :
    requiredText members field = .ok s ↔ Json.lookup field members = some (.str s) := by
  rw [← Json.bind_asString?_eq_some_iff, requiredText]
  cases (Json.lookup field members).bind Json.asString? <;> simp

/-! ## Versions and ids -/

theorem SourceUnit.version?_eq_some_iff {j : Json} {v : Version} :
    version? j = some v ↔ j = .num (.int v.toNat) ∧ 1 ≤ v := by
  have hone : 1 ≤ v ↔ 1 ≤ v.toNat := UInt32.le_iff_toNat_le
  constructor
  · intro h
    obtain ⟨n, hn, h⟩ := Option.bind_eq_some_iff.mp h
    split_ifs at h with hrange
    cases h
    have hto : (UInt32.ofNat n).toNat = n := UInt32.toNat_ofNat_of_lt' hrange.2
    rw [hone, hto]
    refine ⟨?_, hrange.1⟩
    unfold Json.asNat? at hn
    split at hn
    case h_1 i =>
      split_ifs at hn with hi
      cases hn
      rw [Int.toNat_of_nonneg hi]
    case h_2 => cases hn
  · rintro ⟨rfl, hv⟩
    have hfits : 1 ≤ v.toNat ∧ v.toNat < UInt32.size := ⟨hone.mp hv, v.toNat_lt_size⟩
    simp [version?, Json.asNat?, hfits]

theorem SourceUnit.bind_nonEmpty?_eq_some_iff {value : Option Json} {s : String} :
    value.bind nonEmpty? = some s ↔ value = some (.str s) ∧ s ≠ "" := by
  rw [Option.bind_eq_some_iff]
  constructor
  · rintro ⟨j, rfl, h⟩
    unfold nonEmpty? Json.asString? at h
    split at h
    case h_1 t =>
      rw [Option.bind_some] at h
      split_ifs at h with ht
      cases h
      exact ⟨rfl, ht⟩
    case h_2 => cases h
  · rintro ⟨rfl, hs⟩
    exact ⟨.str s, rfl, by simp [nonEmpty?, Json.asString?, hs]⟩

theorem ValidId.ne_empty {id : String} (h : ValidId id) : id ≠ "" := by
  rintro rfl
  exact absurd h (by decide)

/-- The id can be one and the version is not zero. -/
structure VersionedId.WellFormed (v : VersionedId) : Prop where
  validId : ValidId v.id
  positive : 1 ≤ v.version

/-! ## Specifications -/

namespace Json

/-- The version that a member states; without the member it is the first. -/
def StatesVersion (value : Option Json) (version : Version) : Prop :=
  value = none ∧ version = 1 ∨ value = some (.num (.int version.toNat)) ∧ 1 ≤ version

/-- The value is an object that names an artifact. -/
def RefersTo (j : Json) (v : VersionedId) : Prop :=
  ∃ members, j = .obj members ∧ Json.lookup "id" members = some (.str v.id) ∧ ValidId v.id ∧
    StatesVersion (Json.lookup "version" members) v.version

/-- The value names a rule, by itself or with the version beside it. -/
def RefersToRule (j : Json) (beside : Option Json) (v : VersionedId) : Prop :=
  j.RefersTo v ∨ j = .str v.id ∧ ValidId v.id ∧ StatesVersion beside v.version

theorem StatesVersion.positive {value : Option Json} {version : Version}
    (h : StatesVersion value version) : 1 ≤ version := by
  rcases h with ⟨-, rfl⟩ | ⟨-, hv⟩
  · decide
  · exact hv

theorem RefersTo.wellFormed {j : Json} {v : VersionedId} (h : j.RefersTo v) : v.WellFormed := by
  obtain ⟨members, -, -, hid, hversion⟩ := h
  exact ⟨hid, hversion.positive⟩

theorem RefersToRule.wellFormed {j : Json} {beside : Option Json} {v : VersionedId}
    (h : j.RefersToRule beside v) : v.WellFormed := by
  rcases h with h | ⟨-, hid, hversion⟩
  · exact h.wellFormed
  · exact ⟨hid, hversion.positive⟩

end Json

/-! ## Readers -/

theorem refVersion_eq_ok_iff {field : String} {value : Option Json} {version : Version} :
    refVersion field value = .ok version ↔ Json.StatesVersion value version := by
  cases value with
  | none => simp [refVersion, Json.StatesVersion, eq_comm]
  | some v =>
    have hread :
        refVersion field (some v) = .ok version ↔ SourceUnit.version? v = some version := by
      cases hv : SourceUnit.version? v <;> simp [refVersion, hv]
    rw [hread, SourceUnit.version?_eq_some_iff]
    simp [Json.StatesVersion]

/-- Where a reader refuses whatever is no valid id and goes on with an id that is valid, it gives what
it goes on to give for the id that stands there. -/
theorem eq_ok_iff_of_reads_id {α ε : Type} (value : Option Json) (next : String → Except ε α)
    {x : Except ε α} {y : α}
    (missing : value.bind SourceUnit.nonEmpty? = none → x ≠ .ok y)
    (invalid : ∀ id fault, value.bind SourceUnit.nonEmpty? = some id → idFault? id = some fault →
      x ≠ .ok y)
    (valid : ∀ id, value.bind SourceUnit.nonEmpty? = some id → idFault? id = none → x = next id) :
    x = .ok y ↔ ∃ id, value = some (.str id) ∧ ValidId id ∧ next id = .ok y := by
  constructor
  · intro h
    cases hread : value.bind SourceUnit.nonEmpty? with
    | none => exact absurd h (missing hread)
    | some id =>
      cases hfault : idFault? id with
      | some fault => exact absurd h (invalid id fault hread hfault)
      | none =>
        obtain ⟨hvalue, -⟩ := SourceUnit.bind_nonEmpty?_eq_some_iff.mp hread
        exact ⟨id, hvalue, hfault, valid id hread hfault ▸ h⟩
  · rintro ⟨id, hvalue, hvalid, hnext⟩
    have hread := SourceUnit.bind_nonEmpty?_eq_some_iff.mpr ⟨hvalue, hvalid.ne_empty⟩
    rw [valid id hread hvalid, hnext]

theorem versionedRef_eq_ok_iff {field : String} {value : Option Json} {v : VersionedId} :
    versionedRef field value = .ok v ↔ ∃ j, value = some j ∧ j.RefersTo v := by
  rcases value with _ | j
  · simp [versionedRef]
  cases j with
  | obj members =>
    simp only [Option.some.injEq, exists_eq_left', Json.RefersTo, Json.obj.injEq]
    refine (eq_ok_iff_of_reads_id (Json.lookup "id" members)
      (fun id => (refVersion field (Json.lookup "version" members)).map fun version => ⟨id, version⟩)
      ?missing ?invalid ?valid).trans ?_
    case missing =>
      intro hread
      simp [versionedRef, Json.asObject?, hread]
    case invalid =>
      intro id fault hread hfault
      simp [versionedRef, Json.asObject?, hread, hfault]
    case valid =>
      intro id hread hfault
      simp [versionedRef, Json.asObject?, hread, hfault]
      rfl
    simp only [map_eq_ok_iff, refVersion_eq_ok_iff]
    constructor
    · rintro ⟨id, hl, hvalid, version, hversion, rfl⟩
      exact ⟨hl, hvalid, hversion⟩
    · rintro ⟨hl, hvalid, hversion⟩
      exact ⟨v.id, hl, hvalid, v.version, hversion, rfl⟩
  | _ => simp [versionedRef, Json.asObject?, Json.RefersTo]

theorem ruleVersion_eq_ok_iff {id : String} {value : Option Json} {version : Version} :
    ruleVersion id value = .ok version ↔ Json.StatesVersion value version := by
  rw [ruleVersion, mapError_eq_ok_iff, refVersion_eq_ok_iff]

section RuleRef

variable {id : String} {reference : Json} {beside : Option Json} {e : Expression}

/-- Where a rule is referred to by an id in one place and a version in another. -/
theorem exists_ruleVersion_iff (id : String) {value version : Option Json} :
    (∃ rule, value = some (.str rule) ∧ ValidId rule ∧
      ((ruleVersion id version).map fun v => Expression.ruleRef ⟨rule, v⟩) = .ok e) ↔
    ∃ v : VersionedId, (value = some (.str v.id) ∧ ValidId v.id ∧
      Json.StatesVersion version v.version) ∧ e = .ruleRef v := by
  simp only [map_eq_ok_iff, ruleVersion_eq_ok_iff]
  constructor
  · rintro ⟨rule, hvalue, hvalid, v, hversion, rfl⟩
    exact ⟨⟨rule, v⟩, ⟨hvalue, hvalid, hversion⟩, rfl⟩
  · rintro ⟨v, ⟨hvalue, hvalid, hversion⟩, rfl⟩
    exact ⟨v.id, hvalue, hvalid, v.version, hversion, rfl⟩

theorem ruleRef_obj_eq_ok_iff {members : List (String × Json)} :
    ruleRef id (.obj members) beside = .ok e ↔
      ∃ v, (Json.obj members).RefersTo v ∧ e = .ruleRef v := by
  simp only [Json.RefersTo, Json.obj.injEq, exists_eq_left']
  refine (eq_ok_iff_of_reads_id (Json.lookup "id" members) _ ?missing ?invalid ?valid).trans
    (exists_ruleVersion_iff id)
  case missing =>
    intro hread
    simp [ruleRef, expressionFault, hread]
  case invalid =>
    intro rule fault hread hfault
    simp [ruleRef, expressionFault, hread, hfault]
  case valid =>
    intro rule hread hfault
    simp [ruleRef, hread, hfault]
    rfl

/-- Whatever is no object refers to a rule by the id alone, with the version beside it. -/
theorem ruleRef_eq_ok_iff_of_not_obj (hnot : ∀ members, reference ≠ .obj members) :
    ruleRef id reference beside = .ok e ↔ ∃ v : VersionedId,
      (reference = .str v.id ∧ ValidId v.id ∧ Json.StatesVersion beside v.version) ∧
        e = .ruleRef v := by
  simp only [← Option.some.injEq reference]
  refine (eq_ok_iff_of_reads_id (some reference) _ ?missing ?invalid ?valid).trans
    (exists_ruleVersion_iff id)
  case missing =>
    intro hread
    rw [Option.bind_some] at hread
    simp [ruleRef, expressionFault, hread]
  case invalid =>
    intro rule fault hread hfault
    rw [Option.bind_some] at hread
    simp [ruleRef, expressionFault, hread, hfault]
  case valid =>
    intro rule hread hfault
    rw [Option.bind_some] at hread
    simp [ruleRef, hread, hfault]
    rfl

theorem ruleRef_eq_ok_iff :
    ruleRef id reference beside = .ok e ↔
      ∃ v, reference.RefersToRule beside v ∧ e = .ruleRef v := by
  cases reference with
  | obj members => simp [ruleRef_obj_eq_ok_iff, Json.RefersToRule]
  | _ =>
    rw [ruleRef_eq_ok_iff_of_not_obj (by simp)]
    simp [Json.RefersToRule, Json.RefersTo]

end RuleRef

end Verdict
