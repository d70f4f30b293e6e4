import Verdict.Json.Decoding
import Verdict.Proofs.Json.Sorting

/-!
# Typed values read back

A typed reader gives back what was written as a draft of its shape. For records the order of the
members does not matter, because every field is looked up by name.
-/

namespace Verdict.Json

open Results

/-- A reader that asks for another shape gives no value. -/
theorem refuse_ne_ok {α : Type} (d : Draft) (a : α) : d.refuse ≠ .ok a := by
  intro h
  cases d with
  | number t =>
    obtain ⟨-, -, h⟩ := bind_eq_ok_iff.mp h
    cases h
  | string t =>
    obtain ⟨-, -, h⟩ := bind_eq_ok_iff.mp h
    cases h
  | _ => cases h

section Scalars

@[simp] theorem text_str (s : String) : (toDraft (.str s)).text = .ok s := rfl

@[simp] theorem flag_bool (b : Bool) : (toDraft (.bool b)).flag = .ok b := rfl

theorem natural_int {bound n : ℕ} (h : n < bound) :
    (toDraft (.num (.int n))).natural bound = .ok n := by
  have : (0 : ℤ) ≤ n ∧ (n : ℤ) < bound := by omega
  simp [toDraft, Draft.natural, Token.sound, this]

@[simp] theorem uint32_int (n : UInt32) : (toDraft (.num (.int n.toNat))).uint32 = .ok n := by
  rw [Draft.uint32, natural_int n.toNat_lt]
  simp [Except.map]

@[simp] theorem uint64_int (n : UInt64) : (toDraft (.num (.int n.toNat))).uint64 = .ok n := by
  rw [Draft.uint64, natural_int n.toNat_lt]
  simp [Except.map]

theorem choice_str {α : Type} {alternatives : List (String × α)} {name : String} {a : α}
    (h : alternatives.lookup name = some a) :
    (toDraft (.str name)).choice alternatives = .ok a := by
  change Draft.named alternatives name = _
  rw [Draft.named, h]

end Scalars

/-! ## Lists -/

/-- An array is read back if its items are. -/
theorem list_arr {α : Type} {item : Draft → Except Flaw α} {write : α → Json} {as : List α}
    (h : ∀ a ∈ as, item (write a).toDraft = .ok a) :
    (toDraft (.arr (as.map write))).list item = .ok as := by
  have hitems : (toDraftItems (as.map write)).mapM item = .ok as := by
    rw [toDraftItems_eq_map, mapM_eq_ok_iff, List.map_map, List.forall₂_map_left_iff,
      List.forall₂_same]
    exact h
  rw [toDraft, Draft.list, hitems]
  rfl

/-! ## Records -/

open Draft (Field Fields)

/-- The fields of a record, as its members give them. -/
def fieldsOf (ms : List (String × Json)) : Fields := ms.map fun m => (m.1, m.2.toDraft)

/-- A member is one of the fields asked for, and its value is what the field accepts. -/
def Fits (fields : List Field) (m : String × Json) : Prop :=
  ∃ f, fields.find? (fun f => f.name = m.1) = some f ∧ f.check m.2.toDraft = .ok ()

section Fits

variable {α : Type} {fields : List Field} {name : String} {reader : Draft → Except Flaw α}
  {v : Json} {a : α}

theorem fits_required (hf : fields.find? (fun f => f.name = name) = some (.required name reader))
    (h : reader v.toDraft = .ok a) : Fits fields (name, v) :=
  ⟨_, hf, by simp [Field.required, h, Except.map]⟩

theorem fits_defaulted (hf : fields.find? (fun f => f.name = name) = some (.defaulted name reader))
    (h : reader v.toDraft = .ok a) : Fits fields (name, v) :=
  ⟨_, hf, by simp [Field.defaulted, h, Except.map]⟩

end Fits

theorem recordMembers_toDraft {fields : List Field} {ms : List (String × Json)}
    (hfits : ∀ m ∈ ms, Fits fields m) {seen : Fields}
    (hnodup : (((fieldsOf ms).reverse ++ seen).map (·.1)).Nodup) :
    Draft.recordMembers fields seen (toDraftMembers ms) = .ok ((fieldsOf ms).reverse ++ seen) := by
  induction ms generalizing seen with
  | nil => rfl
  | cons m ms ih =>
    obtain ⟨k, v⟩ := m
    rw [List.forall_mem_cons] at hfits
    obtain ⟨⟨f, hf, hcheck⟩, hfits⟩ := hfits
    have hcons : (fieldsOf ((k, v) :: ms)).reverse ++ seen =
        (fieldsOf ms).reverse ++ (k, v.toDraft) :: seen := by
      simp [fieldsOf]
    rw [hcons] at hnodup ⊢
    have hnew : seen.lookup k = none := by
      refine Table.lookup_eq_none_iff.mpr ?_
      rw [List.map_append, List.map_cons] at hnodup
      exact (List.nodup_cons.mp (List.nodup_append.mp hnodup).2.1).1
    rw [toDraftMembers, Draft.recordMembers, Token.sound, ok_bind]
    dsimp only
    rw [hf]
    dsimp only at hcheck ⊢
    rw [hnew, hcheck]
    exact ih hfits hnodup

/-- A record is read from the draft of an object that has all its fields and no other. -/
theorem record_obj {fields : List Field} {ms : List (String × Json)}
    (hnodup : (ms.map (·.1)).Nodup) (hfits : ∀ m ∈ ms, Fits fields m)
    (hall : ∀ f ∈ fields, f.name ∈ ms.map (·.1)) :
    (toDraft (.obj ms)).record fields = .ok (fieldsOf ms).reverse := by
  have hkeys : (fieldsOf ms).map (·.1) = ms.map (·.1) := by simp [fieldsOf]
  have hnew : (((fieldsOf ms).reverse ++ ([] : Fields)).map (·.1)).Nodup := by
    rw [List.append_nil, List.map_reverse, hkeys]
    exact List.nodup_reverse.mpr hnodup
  have hmembers := recordMembers_toDraft hfits hnew
  rw [List.append_nil] at hmembers
  have hfound : (fields.all fun f =>
      f.optional || ((fieldsOf ms).reverse.lookup f.name).isSome) = true := by
    rw [List.all_eq_true]
    intro f hf
    rw [Bool.or_eq_true, Table.lookup_isSome_iff, List.map_reverse, hkeys, List.mem_reverse]
    exact .inr (hall f hf)
  rw [toDraft, Draft.record, hmembers]
  simp only [ok_bind, hfound, if_true, pure_eq]

/-- The members of an object that was read as a record have been checked. -/
theorem check_of_recordMembers {fields : List Field} {ms : List (String × Json)} {seen s : Fields}
    (h : Draft.recordMembers fields seen (toDraftMembers ms) = .ok s) {m : String × Json}
    (hm : m ∈ ms) {f : Field} (hf : fields.find? (fun f => f.name = m.1) = some f) :
    f.check m.2.toDraft = .ok () := by
  induction ms generalizing seen with
  | nil => simp at hm
  | cons first ms ih =>
    obtain ⟨k, v⟩ := first
    rw [toDraftMembers, Draft.recordMembers, Token.sound, ok_bind] at h
    dsimp only at h
    rcases List.mem_cons.mp hm with rfl | hm
    · rw [hf] at h
      dsimp only at h
      split_ifs at h
      · cases h
      · obtain ⟨_, hcheck, -⟩ := bind_eq_ok_iff.mp h
        exact hcheck
    · split at h
      · obtain ⟨-, -, h⟩ := bind_eq_ok_iff.mp h
        exact ih h hm
      · split_ifs at h
        · cases h
        · obtain ⟨-, -, h⟩ := bind_eq_ok_iff.mp h
          exact ih h hm

theorem check_of_record {fields : List Field} {ms : List (String × Json)} {s : Fields}
    (h : (toDraft (.obj ms)).record fields = .ok s) {m : String × Json} (hm : m ∈ ms) {f : Field}
    (hf : fields.find? (fun f => f.name = m.1) = some f) : f.check m.2.toDraft = .ok () := by
  obtain ⟨_, hmembers, -⟩ := bind_eq_ok_iff.mp h
  exact check_of_recordMembers hmembers hm hf

/-! ## What a record was read from -/

theorem mem_of_recordMembers {fields : List Field} {ms : List (Token String × Draft)}
    {before seen : Fields} (h : Draft.recordMembers fields before ms = .ok seen)
    {e : String × Draft} (he : e ∈ seen) : e ∈ before ∨ ∃ t, (t, e.2) ∈ ms := by
  induction ms generalizing before with
  | nil =>
    rw [Draft.recordMembers, Except.ok.injEq] at h
    exact .inl (h ▸ he)
  | cons m ms ih =>
    obtain ⟨t, d⟩ := m
    have further : (∃ t', (t', e.2) ∈ ms) → ∃ t', (t', e.2) ∈ (t, d) :: ms :=
      fun ⟨t', ht⟩ => ⟨t', List.mem_cons_of_mem _ ht⟩
    rw [Draft.recordMembers] at h
    obtain ⟨key, -, h⟩ := bind_eq_ok_iff.mp h
    split at h
    · obtain ⟨-, -, h⟩ := bind_eq_ok_iff.mp h
      exact (ih h).imp_right further
    · split_ifs at h
      · cases h
      · obtain ⟨-, -, h⟩ := bind_eq_ok_iff.mp h
        rcases ih h with hb | hm
        · rcases List.mem_cons.mp hb with rfl | hb
          · exact .inr ⟨t, List.mem_cons_self⟩
          · exact .inl hb
        · exact .inr (further hm)

theorem mem_of_recordItems {close : Except Flaw Unit} {fields : List Field} {ds : List Draft}
    {seen : Fields} (h : Draft.recordItems close fields ds = .ok seen) {e : String × Draft}
    (he : e ∈ seen) : e.2 ∈ ds := by
  induction fields generalizing ds seen with
  | nil =>
    cases ds with
    | nil =>
      rw [Draft.recordItems] at h
      obtain ⟨-, -, rfl⟩ := map_eq_ok_iff.mp h
      simp at he
    | cons d ds => cases h
  | cons f fs ih =>
    cases ds with
    | nil =>
      rw [Draft.recordItems] at h
      obtain ⟨-, -, h⟩ := bind_eq_ok_iff.mp h
      split_ifs at h
      exact ih h he
    | cons d ds =>
      rw [Draft.recordItems] at h
      obtain ⟨-, -, h⟩ := bind_eq_ok_iff.mp h
      obtain ⟨rest, hrest, h⟩ := bind_eq_ok_iff.mp h
      cases h
      rcases List.mem_cons.mp he with rfl | he
      · exact List.mem_cons_self
      · exact List.mem_cons_of_mem _ (ih hrest he)

/-- The fields of a record are parts of the draft it was read from. -/
theorem child_of_record {fields : List Field} {d : Draft} {seen : Fields}
    (h : d.record fields = .ok seen) {e : String × Draft} (he : e ∈ seen) : e.2.Child d := by
  cases d with
  | object ms close =>
    obtain ⟨seen', hseen, h⟩ := bind_eq_ok_iff.mp h
    obtain ⟨-, -, h⟩ := bind_eq_ok_iff.mp h
    split_ifs at h
    cases h
    rcases mem_of_recordMembers hseen he with hb | ⟨t, hm⟩
    · simp at hb
    · exact .member t hm
  | array ds close => exact .item (mem_of_recordItems h he)
  | number t => exact absurd h (refuse_ne_ok (.number t) seen)
  | string t => exact absurd h (refuse_ne_ok (.string t) seen)
  | _ => cases h

/-- The value of a field was read from a part of the draft. -/
theorem exists_child_of_get {α : Type} {fields : List Field} {d : Draft} {seen : Fields}
    (h : d.record fields = .ok seen) {name : String} {reader : Draft → Except Flaw α} {a : α}
    (ha : seen.get name reader = .ok a) : ∃ d', d'.Child d ∧ reader d' = .ok a := by
  unfold Draft.Fields.get at ha
  split at ha
  case h_1 d' hd =>
    exact ⟨d', child_of_record h (Table.mem_entries_of_find? (t := ⟨seen⟩) hd), ha⟩
  case h_2 => cases ha

end Verdict.Json
