import Verdict.Proofs.Store.History

/-!
# Stores of different size

Two stores that differ in how many entries they keep answer the same calls. The entries of the
smaller one stay among those of the larger one, in the same order, and the larger one has at least
as much room left. So what the smaller one finds the larger one finds too, although a look-up may
count as an access in the larger one alone.
-/

namespace Verdict

namespace Table

variable {κ α : Type} [DecidableEq κ]

/-- The entries of one table are among those of another, which has a bounded number of others. -/
structure Nested (small large : Table κ α) (others : Nat) : Prop where
  sublist : small.entries.Sublist large.entries
  distinct : large.Distinct
  size_le : large.size ≤ small.size + others

namespace Nested

variable {small large : Table κ α} {others : Nat}

omit [DecidableEq κ] in
theorem empty (others : Nat) : Nested (Table.empty : Table κ α) Table.empty others :=
  ⟨List.Sublist.refl _, distinct_empty, Nat.le_add_right ..⟩

theorem find? (h : small.Nested large others) {k : κ} {v : α} (hf : small.find? k = some v) :
    large.find? k = some v :=
  h.distinct.find?_of_sublist h.sublist hf

omit [DecidableEq κ] in
theorem mem_keys (h : small.Nested large others) {k : κ} (hk : k ∈ small.keys) : k ∈ large.keys :=
  (h.sublist.map _).subset hk

omit [DecidableEq κ] in
theorem filter (h : small.Nested large others) (keep : α → Bool) :
    (small.filter keep).Nested (large.filter keep) others where
  sublist := h.sublist.filter _
  distinct := h.distinct.of_sublist (sublist_filter keep)
  size_le := by
    -- Whatever the smaller table loses the larger one loses too.
    have hs := small.entries.length_eq_length_filter_add fun e => keep e.2
    have hl := large.entries.length_eq_length_filter_add fun e => keep e.2
    have hdropped := (h.sublist.filter fun e => !keep e.2).length_le
    have hsize := h.size_le
    simp only [size, Table.filter] at hsize ⊢
    omega

theorem erase (h : small.Nested large others) (k : κ) :
    (small.erase k).Nested (large.erase k) others where
  sublist := h.sublist.eraseP
  distinct := h.distinct.of_sublist (sublist_erase k)
  size_le := by
    have hsize := h.size_le
    simp only [size_eq_length_keys, keys_erase, List.length_erase] at hsize ⊢
    by_cases hs : k ∈ small.keys
    · rw [if_pos hs, if_pos (h.mem_keys hs)]
      omega
    · rw [if_neg hs]
      split_ifs <;> omega

theorem renew (h : small.Nested large others) (k : κ) (v : α) :
    (small.renew k v).Nested (large.renew k v) others where
  sublist := (h.erase k).sublist.append_right _
  distinct := h.distinct.renew k v
  size_le := by
    have hsize := (h.erase k).size_le
    simp only [size, Table.renew, List.length_append, List.length_singleton] at hsize ⊢
    omega

/-- An entry that the smaller table does not have may move to the end in the larger one. -/
theorem renew_right (h : small.Nested large others) {k : κ} (hs : k ∉ small.keys)
    (hl : k ∈ large.keys) (v : α) : small.Nested (large.renew k v) others where
  sublist := by
    have herase := (h.erase k).sublist
    rw [erase_of_not_mem hs] at herase
    exact herase.trans (List.sublist_append_left ..)
  distinct := h.distinct.renew k v
  size_le := (size_renew_le hl).trans h.size_le

omit [DecidableEq κ] in
theorem shrink (h : small.Nested large others) (capacity : Nat) :
    (small.shrink capacity).Nested (large.shrink (capacity + others)) others where
  sublist := by
    have hsize := h.size_le
    -- The larger table drops no more entries than the smaller one.
    have hle : large.entries.length - (capacity + others) ≤ small.entries.length - capacity := by
      simp only [size] at hsize
      omega
    rw [entries_shrink, entries_shrink]
    exact (h.sublist.drop _).trans (List.drop_sublist_drop_left _ hle)
  distinct := h.distinct.of_sublist (sublist_shrink _)
  size_le := by
    have hsize := h.size_le
    simp only [size, entries_shrink, length_rtake] at hsize ⊢
    omega

end Nested
end Table

namespace Store

/-- A store beside one that has room for more entries and otherwise serves the same calls. -/
structure Within (s l : Store) (others : Nat) : Prop where
  timeToIdle_eq : s.config.timeToIdle = l.config.timeToIdle
  maxEntries_eq : l.config.maxEntries = s.config.maxEntries + others
  nested : s.entries.Nested l.entries others

namespace Within

variable {s l : Store} {others : Nat}

theorem fresh (h : s.Within l others) (now : Nat) : (s.fresh now).Nested (l.fresh now) others := by
  rw [Store.fresh, Store.fresh, h.timeToIdle_eq]
  exact h.nested.filter _

theorem with_entries (h : s.Within l others) {small large : Table VersionedId StoreEntry}
    (hn : small.Nested large others) :
    { s with entries := small }.Within { l with entries := large } others :=
  ⟨h.timeToIdle_eq, h.maxEntries_eq, hn⟩

theorem register (h : s.Within l others) (name : VersionedId) (archive : LoadedArchive)
    (now : Nat) : (s.register name archive now).Within (l.register name archive now) others := by
  have hdistinct := h.nested.distinct
  rw [register_eq (hdistinct.of_sublist h.nested.sublist), register_eq hdistinct, h.maxEntries_eq]
  exact h.with_entries (((h.fresh now).renew name ⟨archive, now⟩).shrink _)

theorem get (h : s.Within l others) (name : VersionedId) (now : Nat) :
    (s.get name now).1.Within (l.get name now).1 others := by
  have hfresh := h.fresh now
  cases hs : (s.fresh now).find? name with
  | some e =>
    rw [get_of_find? hs, get_of_find? (hfresh.find? hs)]
    exact h.with_entries (hfresh.renew name { e with lastAccess := now })
  | none =>
    rw [get_of_find?_eq_none hs]
    cases hl : (l.fresh now).find? name with
    | none =>
      rw [get_of_find?_eq_none hl]
      exact h.with_entries hfresh
    | some e =>
      rw [get_of_find? hl]
      exact h.with_entries (hfresh.renew_right (Table.find?_eq_none_iff.mp hs)
        (Table.mem_keys_of_find? hl) { e with lastAccess := now })

/-- The same call keeps a store within a larger one. -/
theorem after (h : s.Within l others) (c : StoreCall) : (s.after c).Within (l.after c) others := by
  cases c with
  | load name tree path now =>
    simp only [Store.after, load]
    cases LoadedArchive.load tree path with
    | error e => exact h
    | ok archive => exact h.register name archive now
  | register name archive now => exact h.register name archive now
  | get name now => exact h.get name now
  | unload name => exact h.with_entries (h.nested.erase name)

theorem run (h : s.Within l others) (calls : List StoreCall) :
    (s.run calls).Within (l.run calls) others := by
  induction calls generalizing s l with
  | nil => exact h
  | cons c cs ih => exact ih (h.after c)

end Within

theorem new_within {n m idle : Nat} (h : n ≤ m) {s l : Store} (hs : new ⟨n, idle⟩ = .ok s)
    (hl : new ⟨m, idle⟩ = .ok l) : s.Within l (m - n) := by
  obtain ⟨-, -, rfl⟩ := new_eq_ok_iff.mp hs
  obtain ⟨-, -, rfl⟩ := new_eq_ok_iff.mp hl
  exact ⟨rfl, (Nat.add_sub_cancel' h).symm, .empty _⟩

/-- What a store finds after some calls a larger one finds after the same calls. -/
theorem found_of_smaller {n m idle : Nat} (h : n ≤ m) {s l : Store} (hs : new ⟨n, idle⟩ = .ok s)
    (hl : new ⟨m, idle⟩ = .ok l) (calls : List StoreCall) :
    (∀ name now archive, ((s.run calls).get name now).2 = .ok archive →
        ((l.run calls).get name now).2 = .ok archive) ∧
      ∀ name, ((s.run calls).unload name).2 = true → ((l.run calls).unload name).2 = true := by
  have hwithin := (new_within h hs hl).run calls
  constructor
  · intro name now archive hget
    cases hf : ((s.run calls).fresh now).find? name with
    | none =>
      rw [get_of_find?_eq_none hf] at hget
      cases hget
    | some e =>
      rw [get_of_find? hf] at hget
      rw [get_of_find? ((hwithin.fresh now).find? hf)]
      exact hget
  · intro name hunload
    rw [unload, ← Table.mem_keys_iff] at hunload ⊢
    exact hwithin.nested.mem_keys hunload

/-- The smaller store misses the look-up, and the larger one holds that name when all is done. -/
theorem found_of_smaller_thirdName :
    let s : Store := (⟨⟨1, 60⟩, Table.empty⟩ : Store).run thirdName
    let l : Store := (⟨⟨2, 60⟩, Table.empty⟩ : Store).run thirdName
    1 ≤ 2 ∧ s.entries.keys = [⟨"c", 1⟩] ∧ l.entries.keys = [⟨"a", 1⟩, ⟨"c", 1⟩] ∧
      (∃ archive, (s.get ⟨"c", 1⟩ 3).2 = .ok archive ∧ (l.get ⟨"c", 1⟩ 3).2 = .ok archive) ∧
      (s.unload ⟨"c", 1⟩).2 = true ∧ (l.unload ⟨"c", 1⟩).2 = true := by
  have smaller : new ⟨1, 60⟩ = .ok ⟨⟨1, 60⟩, Table.empty⟩ := rfl
  have larger : new ⟨2, 60⟩ = .ok ⟨⟨2, 60⟩, Table.empty⟩ := rfl
  obtain ⟨hget, hunload⟩ := found_of_smaller (by decide) smaller larger thirdName
  have found : ((Store.run ⟨⟨1, 60⟩, Table.empty⟩ thirdName).unload ⟨"c", 1⟩).2 = true := by decide
  exact ⟨by decide, by decide, by decide, ⟨_, rfl, hget _ _ _ rfl⟩, found, hunload _ found⟩

end Store
end Verdict
