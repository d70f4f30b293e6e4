import Mathlib.Data.List.DropRight
import Mathlib.Data.List.Nodup
import Verdict.Proofs.Table

/-!
# Order in tables

Taking a key out, dropping entries that fail a test and cutting a table down at the front leave some
of the entries in their order. Where every key has one entry, moving the entry of a key behind all
others is taking it out and adding it at the end.
-/

namespace Verdict

theorem length_rtake {α : Type} (l : List α) (n : Nat) : (l.rtake n).length = min n l.length := by
  rw [List.rtake, List.length_drop]
  omega

theorem rtake_of_length_le {α : Type} {l : List α} {n : Nat} (h : l.length ≤ n) :
    l.rtake n = l := by
  rw [List.rtake, Nat.sub_eq_zero_of_le h, List.drop_zero]

namespace Table

variable {κ α : Type} [DecidableEq κ] {t : Table κ α} {k : κ} {v : α}

omit [DecidableEq κ] in
theorem Distinct.of_sublist {s : Table κ α} (h : t.Distinct) (hs : s.entries.Sublist t.entries) :
    s.Distinct :=
  h.sublist (hs.map _)

theorem Distinct.find?_of_sublist {s : Table κ α} (h : t.Distinct)
    (hs : s.entries.Sublist t.entries) (hf : s.find? k = some v) : t.find? k = some v :=
  h.find?_eq_some_iff.mpr (hs.subset (mem_entries_of_find? hf))

theorem find?_eq_none_iff : t.find? k = none ↔ k ∉ t.keys := lookup_eq_none_iff

theorem mem_keys_of_find? (h : t.find? k = some v) : k ∈ t.keys :=
  List.mem_map_of_mem (mem_entries_of_find? h)

theorem exists_find?_of_mem_keys (h : k ∈ t.keys) : ∃ v, t.find? k = some v :=
  Option.isSome_iff_exists.mp ((mem_keys_iff t k).mp h)

omit [DecidableEq κ] in
theorem sublist_filter (keep : α → Bool) : (t.filter keep).entries.Sublist t.entries :=
  List.filter_sublist

theorem sublist_erase (k : κ) : (t.erase k).entries.Sublist t.entries := List.eraseP_sublist

theorem keys_erase (t : Table κ α) (k : κ) : (t.erase k).keys = t.keys.erase k := by
  have hp : (fun k' => k == k') ∘ Prod.fst = fun e : κ × α => decide (e.1 = k) := by
    funext e
    rw [Function.comp_apply, Bool.eq_iff_iff, beq_iff_eq, decide_eq_true_eq, eq_comm]
  rw [keys, erase, keys, List.erase_eq_eraseP, List.eraseP_map, hp]

theorem Distinct.not_mem_keys_erase (h : t.Distinct) : k ∉ (t.erase k).keys := by
  rw [keys_erase]
  exact h.not_mem_erase

theorem erase_of_not_mem (h : k ∉ t.keys) : t.erase k = t := by
  rw [erase, List.eraseP_of_forall_not]
  intro e he
  rw [decide_eq_true_eq]
  rintro rfl
  exact h (List.mem_map_of_mem he)

/-- Only the entry of the key is gone. -/
theorem Distinct.entries_erase (h : t.Distinct) :
    (t.erase k).entries = t.entries.filter fun e => e.1 ≠ k := by
  rcases t with ⟨entries⟩
  induction entries with
  | nil => rfl
  | cons e rest ih =>
    obtain ⟨hnot, hrest⟩ := List.nodup_cons.mp h
    by_cases he : e.1 = k
    · -- No other entry has the key, so the filter keeps all of the rest.
      have hkeep : ∀ e' ∈ rest, e'.1 ≠ k := fun e' he' hk =>
        hnot (List.mem_map.mpr ⟨e', he', hk.trans he.symm⟩)
      rw [erase, List.eraseP_cons_of_pos (by simpa using he),
        List.filter_cons_of_neg (by simpa using he), List.filter_eq_self.mpr (by simpa using hkeep)]
    · rw [erase, List.eraseP_cons_of_neg (by simpa using he),
        List.filter_cons_of_pos (by simpa using he)]
      exact congrArg (e :: ·) (ih hrest)

theorem Distinct.find?_erase (h : t.Distinct) (k' : κ) :
    (t.erase k).find? k' = if k' = k then none else t.find? k' := by
  split_ifs with hk
  · rw [hk, find?_eq_none_iff]
    exact h.not_mem_keys_erase
  · ext v
    rw [(h.of_sublist (sublist_erase k)).find?_eq_some_iff, h.find?_eq_some_iff, h.entries_erase,
      List.mem_filter]
    simp [hk]

/-- The table with an entry at its end, and without another one of the same key. -/
def renew (t : Table κ α) (key : κ) (value : α) : Table κ α :=
  ⟨(t.erase key).entries ++ [(key, value)]⟩

theorem keys_renew (t : Table κ α) (k : κ) (v : α) :
    (t.renew k v).keys = t.keys.erase k ++ [k] := by
  rw [renew, keys, List.map_append, ← keys_erase]
  rfl

theorem Distinct.renew (h : t.Distinct) (k : κ) (v : α) : (t.renew k v).Distinct := by
  rw [Distinct, keys_renew, ← List.concat_eq_append]
  exact (List.Nodup.erase k h).concat (List.Nodup.not_mem_erase h)

theorem Distinct.insert_erase (h : t.Distinct) (k : κ) (v : α) :
    (t.erase k).insert k v = t.renew k v := by
  rw [Table.insert, insertEntry_of_not_mem h.not_mem_keys_erase, Table.renew]

theorem Distinct.find?_renew (h : t.Distinct) (k' : κ) :
    (t.renew k v).find? k' = if k' = k then some v else t.find? k' := by
  rw [← h.insert_erase, find?_insert, h.find?_erase]
  split_ifs <;> rfl

theorem size_renew_le (h : k ∈ t.keys) : (t.renew k v).size ≤ t.size := by
  have hpos : 0 < t.keys.length := List.length_pos_of_mem h
  rw [size_eq_length_keys, size_eq_length_keys, keys_renew, List.length_append,
    List.length_erase_of_mem h, List.length_singleton]
  omega

/-- A key that is found splits the table into the entries before it and behind it. -/
theorem exists_split (h : t.find? k = some v) :
    ∃ before behind, t.entries = before ++ (k, v) :: behind ∧ k ∉ before.map (·.1) := by
  obtain ⟨before, behind, ht, hk⟩ := List.lookup_eq_some_iff.mp h
  refine ⟨before, behind, ht, ?_⟩
  rw [List.mem_map]
  rintro ⟨e, he, rfl⟩
  simpa using hk e he

theorem position?_eq_none_iff : t.position? k = none ↔ k ∉ t.keys := by
  rw [position?, List.findIdx?_eq_none_iff, keys, List.mem_map]
  simp only [decide_eq_false_iff_not, not_exists, not_and]

/-- Moving the entry of a key to the last position renews it. -/
theorem move?_position {before behind : List (κ × α)} (ht : t.entries = before ++ (k, v) :: behind)
    (hk : k ∉ before.map (·.1)) :
    t.position? k = some before.length ∧
      t.move? before.length (before ++ behind).length = some (t.renew k v) := by
  have hbefore : ∀ e ∈ before, e.1 ≠ k := by
    rintro e he rfl
    exact hk (List.mem_map_of_mem he)
  have herase : (t.erase k).entries = before ++ behind := by
    rw [erase, ht, List.eraseP_append_right _ (by simpa using hbefore)]
    simp
  constructor
  · rw [position?, ht, List.findIdx?_append, List.findIdx?_eq_none_iff.mpr (by simpa using hbefore),
      List.findIdx?_cons]
    simp
  · have hsize : (before ++ behind).length < t.size := by
      rw [size, ht]
      simp only [List.length_append, List.length_cons]
      omega
    rw [move?, if_pos hsize, ht, List.getElem?_append_right (Nat.le_refl _), Nat.sub_self,
      List.getElem?_cons_zero, Option.map_some, List.eraseIdx_append_of_length_le (Nat.le_refl _),
      Nat.sub_self, List.eraseIdx_cons_zero, List.insertIdx_length_self, renew, herase]

omit [DecidableEq κ] in
/-- Entries are dropped until the last ones are left, as many as there is room for. -/
theorem dropExcess_eq_rtake (capacity : Nat) (entries : List (κ × α)) :
    dropExcess capacity entries = entries.rtake capacity := by
  induction entries with
  | nil => simp [dropExcess]
  | cons e rest ih =>
    rw [dropExcess]
    split_ifs with h
    · have hdrop : (e :: rest).length - capacity = rest.length - capacity + 1 := by
        simp only [List.length_cons] at h ⊢
        omega
      rw [ih, List.rtake, List.rtake, hdrop, List.drop_succ_cons]
    · rw [rtake_of_length_le (Nat.not_lt.mp h)]

omit [DecidableEq κ] in
theorem entries_shrink (t : Table κ α) (capacity : Nat) :
    (t.shrink capacity).entries = t.entries.rtake capacity :=
  dropExcess_eq_rtake capacity t.entries

omit [DecidableEq κ] in
theorem keys_shrink (t : Table κ α) (capacity : Nat) :
    (t.shrink capacity).keys = t.keys.rtake capacity := by
  rw [keys, entries_shrink, List.rtake, List.map_drop, List.rtake, keys, List.length_map]

omit [DecidableEq κ] in
theorem shrink_of_size_le {capacity : Nat} (h : t.size ≤ capacity) : t.shrink capacity = t := by
  rw [shrink, dropExcess_eq_rtake, rtake_of_length_le h]

omit [DecidableEq κ] in
theorem sublist_shrink (capacity : Nat) : (t.shrink capacity).entries.Sublist t.entries := by
  rw [entries_shrink]
  exact List.drop_sublist _ _

omit [DecidableEq κ] in
theorem size_shrink_le (t : Table κ α) (capacity : Nat) : (t.shrink capacity).size ≤ capacity := by
  rw [size, entries_shrink, length_rtake]
  exact Nat.min_le_left _ _

end Table
end Verdict
