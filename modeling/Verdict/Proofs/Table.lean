import Mathlib.Data.List.Nodup
import Mathlib.Data.List.Perm.Subperm
import Verdict.Table

/-!
# Tables as maps

Tables that are built by insertion hold every key once. For them membership of an entry, look-up and
the list of keys say the same, so two such tables that agree on every look-up have the same size.
-/

namespace Verdict.Table

variable {κ α β : Type} [DecidableEq κ]

theorem mem_keys_iff (t : Table κ α) (k : κ) : k ∈ t.keys ↔ t.contains k = true := by
  rcases t with ⟨entries⟩
  induction entries with
  | nil => simp [keys, contains, find?]
  | cons e rest ih =>
    obtain ⟨k₀, v₀⟩ := e
    by_cases h : k = k₀
    · simp [keys, contains, find?, h]
    · simp only [keys, contains, find?] at ih
      simp [keys, contains, find?, lookup_cons, h, ih]

theorem lookup_isSome_iff {entries : List (κ × α)} {k : κ} :
    (entries.lookup k).isSome = true ↔ k ∈ entries.map (·.1) :=
  (mem_keys_iff ⟨entries⟩ k).symm

theorem lookup_eq_none_iff {entries : List (κ × α)} {k : κ} :
    entries.lookup k = none ↔ k ∉ entries.map (·.1) := by
  rw [← lookup_isSome_iff, Bool.not_eq_true, Option.isSome_eq_false_iff, Option.isNone_iff_eq_none]

omit [DecidableEq κ] in
theorem size_eq_length_keys (t : Table κ α) : t.size = t.keys.length := by simp [size, keys]

/-- No key has two entries. -/
def Distinct (t : Table κ α) : Prop := t.keys.Nodup

omit [DecidableEq κ] in
theorem distinct_empty : (empty : Table κ α).Distinct := List.nodup_nil

theorem Distinct.insert {t : Table κ α} (h : t.Distinct) (key : κ) (value : α) :
    (t.insert key value).Distinct := by
  unfold Distinct
  rw [keys_insert]
  split_ifs with hk
  · exact h
  · rw [List.nodup_append]
    refine ⟨h, List.nodup_singleton _, ?_⟩
    intro a ha b hb hab
    rw [List.mem_singleton] at hb
    exact hk (hb ▸ hab ▸ ha)

theorem Distinct.foldl_insert {t : Table κ α} (h : t.Distinct) (key : β → κ) (value : β → α)
    (bs : List β) : (bs.foldl (fun t b => t.insert (key b) (value b)) t).Distinct := by
  induction bs generalizing t with
  | nil => exact h
  | cons b bs ih => exact ih (h.insert (key b) (value b))

theorem mem_entries_of_find? {t : Table κ α} {k : κ} {v : α} (h : t.find? k = some v) :
    (k, v) ∈ t.entries := by
  rcases t with ⟨entries⟩
  induction entries with
  | nil => simp [find?] at h
  | cons e rest ih =>
    obtain ⟨k₀, v₀⟩ := e
    simp only [find?, lookup_cons] at h ih
    split_ifs at h with hk
    · cases h
      exact hk ▸ List.mem_cons_self
    · exact List.mem_cons_of_mem _ (ih h)

theorem Distinct.find?_eq_some_iff {t : Table κ α} (h : t.Distinct) {k : κ} {v : α} :
    t.find? k = some v ↔ (k, v) ∈ t.entries := by
  refine ⟨mem_entries_of_find?, ?_⟩
  rcases t with ⟨entries⟩
  induction entries with
  | nil => simp
  | cons e rest ih =>
    obtain ⟨k₀, v₀⟩ := e
    simp only [Distinct, keys, List.map_cons, List.nodup_cons] at h
    intro hm
    rcases List.mem_cons.mp hm with he | hr
    · cases he
      simp [find?]
    · have hk : k ≠ k₀ := by
        rintro rfl
        exact h.1 (List.mem_map.mpr ⟨(k, v), hr, rfl⟩)
      simpa [find?, lookup_cons, hk] using ih h.2 hr

theorem mem_values_of_find? {t : Table κ α} {k : κ} {v : α} (h : t.find? k = some v) :
    v ∈ t.values :=
  List.mem_map.mpr ⟨_, mem_entries_of_find? h, rfl⟩

/-- Tables with the same keys have the same size. -/
theorem Distinct.size_eq {s : Table κ α} {t : Table κ β} (hs : s.Distinct) (ht : t.Distinct)
    (h : ∀ k, s.contains k = true ↔ t.contains k = true) : s.size = t.size := by
  have hp : s.keys.Perm t.keys := (List.perm_ext_iff_of_nodup hs ht).mpr fun k => by
    rw [mem_keys_iff, mem_keys_iff, h k]
  rw [size_eq_length_keys, size_eq_length_keys, hp.length_eq]

/-- The last value inserted under a key is found, and otherwise what was there before. -/
theorem find?_foldl_insert (key : β → κ) (value : β → α) (bs : List β) (t : Table κ α) (k : κ) :
    (bs.foldl (fun t b => t.insert (key b) (value b)) t).find? k =
      (((bs.filter fun b => key b = k).getLast?).map value).or (t.find? k) := by
  induction bs generalizing t with
  | nil => simp
  | cons b bs ih =>
    rw [List.foldl_cons, ih, find?_insert]
    by_cases hb : key b = k
    · cases hl : (bs.filter fun b => key b = k).getLast? with
      | none => simp [hb, List.getLast?_eq_none_iff.mp hl]
      | some c => simp [hb, List.getLast?_cons, hl]
    · simp [hb, Ne.symm hb]

theorem mem_insertEntry {key : κ} {value : α} {es : List (κ × α)} {e : κ × α}
    (h : e ∈ insertEntry key value es) : e = (key, value) ∨ e ∈ es := by
  induction es with
  | nil =>
    rw [insertEntry] at h
    exact .inl (List.mem_singleton.mp h)
  | cons e' rest ih =>
    obtain ⟨k, v⟩ := e'
    rw [insertEntry] at h
    split_ifs at h with hk
    · subst hk
      exact (List.mem_cons.mp h).imp_right (List.mem_cons_of_mem _)
    · rcases List.mem_cons.mp h with rfl | h
      · exact .inr List.mem_cons_self
      · exact (ih h).imp_right (List.mem_cons_of_mem _)

theorem insertEntry_of_not_mem {key : κ} {value : α} {es : List (κ × α)}
    (h : key ∉ es.map (·.1)) : insertEntry key value es = es ++ [(key, value)] := by
  induction es with
  | nil => rfl
  | cons e es ih =>
    obtain ⟨k, v⟩ := e
    rw [List.map_cons, List.mem_cons, not_or] at h
    rw [insertEntry, if_neg (Ne.symm h.1), ih h.2, List.cons_append]

/-- A table made from entries with distinct keys has these entries. -/
theorem ofList_eq {es : List (κ × α)} (h : (es.map (·.1)).Nodup) : ofList es = ⟨es⟩ := by
  suffices H : ∀ before : List (κ × α), ((before ++ es).map (·.1)).Nodup →
      es.foldl (fun t e => t.insert e.1 e.2) (⟨before⟩ : Table κ α) = ⟨before ++ es⟩ from H [] h
  clear h
  induction es with
  | nil => simp
  | cons e es ih =>
    intro before hb
    rw [List.append_cons] at hb
    have hnew : e.1 ∉ before.map (·.1) := by
      rw [List.map_append, List.map_append, List.map_singleton, List.nodup_append] at hb
      rw [List.nodup_append] at hb
      exact fun hm => hb.1.2.2 _ hm _ (List.mem_singleton_self _) rfl
    rw [List.foldl_cons, insert, insertEntry_of_not_mem hnew, ih _ hb, List.append_assoc,
      List.singleton_append]

/-- Every entry of a table was given to it. -/
theorem mem_of_mem_ofList {es : List (κ × α)} {e : κ × α} (h : e ∈ (ofList es).entries) :
    e ∈ es := by
  suffices H : ∀ t : Table κ α, e ∈ (es.foldl (fun t e => t.insert e.1 e.2) t).entries →
      e ∈ t.entries ∨ e ∈ es from (H empty h).resolve_left List.not_mem_nil
  clear h
  induction es with
  | nil => exact fun t h => .inl h
  | cons e' es ih =>
    intro t h
    rcases ih _ h with h | h
    · rcases mem_insertEntry h with rfl | h
      · exact .inr List.mem_cons_self
      · exact .inl h
    · exact .inr (List.mem_cons_of_mem _ h)

/-- A table has the same entries in whatever order. -/
theorem Distinct.sameEntries_of_perm {s t : Table κ α} [DecidableEq α] (h : s.Distinct)
    (hp : t.entries.Perm s.entries) : s.sameEntries t = true := by
  have ht : t.Distinct := (hp.map _).nodup_iff.mpr h
  rw [sameEntries, Bool.and_eq_true, decide_eq_true_eq, List.all_eq_true]
  refine ⟨hp.length_eq.symm, fun e he => ?_⟩
  rw [decide_eq_true_eq, ht.find?_eq_some_iff, hp.mem_iff]
  exact he

/-- Tables with the same entries have them in some order. -/
theorem Distinct.perm_of_sameEntries {s t : Table κ α} [DecidableEq α] (h : s.Distinct)
    (hsame : s.sameEntries t = true) : t.entries.Perm s.entries := by
  rw [sameEntries, Bool.and_eq_true, decide_eq_true_eq, List.all_eq_true] at hsame
  obtain ⟨hsize, hall⟩ := hsame
  have hsub : s.entries ⊆ t.entries := by
    intro e he
    exact mem_entries_of_find? (of_decide_eq_true (hall e he))
  have hnodup : s.entries.Nodup := h.of_map _
  exact ((List.subperm_of_subset hnodup hsub).perm_of_length_le (Nat.le_of_eq hsize.symm)).symm

end Verdict.Table
