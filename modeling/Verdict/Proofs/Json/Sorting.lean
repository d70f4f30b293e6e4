import Verdict.Proofs.Json.Extent

/-!
# Values sorted by key

Reading the draft of a value gives the value with its members sorted, as long as no key is repeated:
members with different keys may be inserted in any order.
-/

namespace Verdict

theorem insertSorted_comm {α : Type} {k l : String} (h : k ≠ l) (v w : α)
    (ms : List (String × α)) :
    insertSorted k v (insertSorted l w ms) = insertSorted l w (insertSorted k v ms) := by
  induction ms with
  | nil =>
    rcases lt_or_gt_of_ne h with hlt | hlt
    · simp [insertSorted, h, h.symm, hlt, hlt.not_gt]
    · simp [insertSorted, h, h.symm, hlt, hlt.not_gt]
  | cons m rest ih =>
    obtain ⟨k', v'⟩ := m
    simp only [insertSorted]
    grind [insertSorted]

/-- A new key adds a member and changes none. -/
theorem insertSorted_perm {α : Type} {k : String} {ms : List (String × α)}
    (h : k ∉ ms.map (·.1)) (v : α) : (insertSorted k v ms).Perm ((k, v) :: ms) := by
  induction ms with
  | nil => exact .refl _
  | cons m rest ih =>
    obtain ⟨k', v'⟩ := m
    rw [List.map_cons, List.mem_cons, not_or] at h
    rw [insertSorted, if_neg h.1]
    split_ifs
    · exact .refl _
    · exact ((ih h.2).cons (k', v')).trans (.swap _ _ _)

namespace Json

open Results

theorem sortKeysMembers_perm {ms : List (String × Json)} (h : (ms.map (·.1)).Nodup) :
    (sortKeysMembers ms).Perm (ms.map fun m => (m.1, m.2.sortKeys)) := by
  induction ms with
  | nil => exact .refl _
  | cons m ms ih =>
    obtain ⟨k, v⟩ := m
    rw [List.map_cons, List.nodup_cons] at h
    have hp := ih h.2
    have hk : k ∉ (sortKeysMembers ms).map (·.1) := by
      rw [(hp.map _).mem_iff]
      simpa using h.1
    rw [sortKeysMembers, List.map_cons]
    exact (insertSorted_perm hk _).trans (hp.cons _)

theorem sortKeysItems_eq_map (xs : List Json) : sortKeysItems xs = xs.map sortKeys := by
  induction xs with
  | nil => rfl
  | cons x xs ih => rw [sortKeysItems, ih, List.map_cons]

theorem toJsonItems_toDraft {n : ℕ} {xs : List Json}
    (h : ∀ x ∈ xs, Draft.toJson n x.toDraft = .ok x.sortKeys) :
    Draft.toJsonItems n (toDraftItems xs) = .ok (sortKeysItems xs) := by
  rw [toJsonItems_eq_ok_iff, toDraftItems_eq_map, sortKeysItems_eq_map,
    List.forall₂_map_left_iff, List.forall₂_map_right_iff, List.forall₂_same]
  exact h

/-- A member with a new key may be added after the others. -/
theorem foldl_insertSorted {α β : Type} (f : α → β) {k : String} (v : β) {ms : List (String × α)}
    (hk : k ∉ ms.map (·.1)) (before : List (String × β)) :
    ms.foldl (fun acc m => insertSorted m.1 (f m.2) acc) (insertSorted k v before) =
      insertSorted k v (ms.foldl (fun acc m => insertSorted m.1 (f m.2) acc) before) := by
  induction ms generalizing before with
  | nil => rfl
  | cons m ms ih =>
    rw [List.map_cons, List.mem_cons, not_or] at hk
    rw [List.foldl_cons, List.foldl_cons, insertSorted_comm (Ne.symm hk.1), ih hk.2]

theorem toJsonMembers_toDraft {n : ℕ} {ms : List (String × Json)}
    (h : ∀ m ∈ ms, Draft.toJson n m.2.toDraft = .ok m.2.sortKeys) (before : List (String × Json)) :
    Draft.toJsonMembers n before (toDraftMembers ms) =
      .ok (ms.foldl (fun acc m => insertSorted m.1 m.2.sortKeys acc) before) := by
  rw [toJsonMembers_eq_ok_iff]
  refine ⟨ms.map fun m => (m.1, m.2.sortKeys), ?_, by rw [List.foldl_map]⟩
  rw [toDraftMembers_eq_map, List.forall₂_map_left_iff, List.forall₂_map_right_iff,
    List.forall₂_same]
  exact fun m hm => ⟨rfl, h m hm⟩

theorem sortKeysMembers_eq_foldl {ms : List (String × Json)} (h : (ms.map (·.1)).Nodup) :
    sortKeysMembers ms = ms.foldl (fun acc m => insertSorted m.1 m.2.sortKeys acc) [] := by
  induction ms with
  | nil => rfl
  | cons m ms ih =>
    obtain ⟨k, v⟩ := m
    rw [List.map_cons, List.nodup_cons] at h
    rw [sortKeysMembers, ih h.2, List.foldl_cons, foldl_insertSorted sortKeys _ h.1]

/-- A value that can be stored is read back with its members sorted. -/
theorem toJson_toDraft {n : ℕ} {j : Json} (h : j.Storable n) :
    Draft.toJson n j.toDraft = .ok j.sortKeys := by
  induction h with
  | arr _ ih =>
    rw [toDraft, Draft.toJson, toJsonItems_toDraft ih]
    rfl
  | obj hnodup _ ih =>
    rw [toDraft, Draft.toJson, toJsonMembers_toDraft ih, ← sortKeysMembers_eq_foldl hnodup]
    rfl
  | _ => rfl

/-- The text of a value that can be stored is read back with its members sorted. -/
theorem ofText_compact {j : Json} (h : j.Storable Draft.depthLimit) :
    ofText j.compact = .ok j.sortKeys := by
  rw [ofText, readWith_compact _ h.inRange]
  exact toJson_toDraft h

/-- Sorting the members repeats no key and nests nothing deeper. -/
theorem Storable.sortKeys {n : ℕ} {j : Json} (h : j.Storable n) : j.sortKeys.Storable n := by
  induction h with
  | null => exact .null
  | bool b => exact .bool b
  | num hi => exact .num hi
  | str s => exact .str s
  | arr _ ih =>
    rw [Json.sortKeys, sortKeysItems_eq_map]
    refine .arr fun x hx => ?_
    obtain ⟨y, hy, rfl⟩ := List.mem_map.mp hx
    exact ih y hy
  | obj hnodup _ ih =>
    have hp := sortKeysMembers_perm hnodup
    rw [Json.sortKeys]
    refine .obj ?_ fun m hm => ?_
    · rw [(hp.map _).nodup_iff]
      simpa [Function.comp_def] using hnodup
    · obtain ⟨m', hm', rfl⟩ := List.mem_map.mp (hp.mem_iff.mp hm)
      exact ih m' hm'

/-! ## What is read is sorted -/

/-- The members of every object in the value are sorted by key. -/
inductive Ordered : Json → Prop
  | null : Ordered .null
  | bool (b : Bool) : Ordered (.bool b)
  | num (n : Number) : Ordered (.num n)
  | str (s : String) : Ordered (.str s)
  | arr {xs : List Json} : (∀ x ∈ xs, Ordered x) → Ordered (.arr xs)
  | obj {ms : List (String × Json)} : (ms.Pairwise fun m m' => m.1 < m'.1) →
      (∀ m ∈ ms, Ordered m.2) → Ordered (.obj ms)

/-- Whatever the order of the members in a text, a value that was read has them sorted. -/
theorem ordered_of_toJson {n : ℕ} {d : Draft} {j : Json} (h : Draft.toJson n d = .ok j) :
    j.Ordered := by
  induction n using Nat.strongRecOn generalizing d j with
  | _ n ih =>
    cases d with
    | null =>
      cases h
      exact .null
    | bool b =>
      cases h
      exact .bool b
    | number t =>
      obtain ⟨i, -, rfl⟩ := map_eq_ok_iff.mp h
      exact .num i
    | string t =>
      obtain ⟨s, -, rfl⟩ := map_eq_ok_iff.mp h
      exact .str s
    | array ds close =>
      obtain ⟨n, xs, rfl, hxs, rfl⟩ := exists_items_of_toJson h
      refine .arr fun x hx => ?_
      obtain ⟨d, -, hr⟩ := exists_of_forall₂ (toJsonItems_eq_ok_iff.mp hxs) hx
      exact ih n n.lt_succ_self hr
    | object ms close =>
      obtain ⟨n, ms, rfl, hms, rfl⟩ := exists_members_of_toJson h
      refine .obj (sorted_toJsonMembers hms .nil) fun m hm => ?_
      rcases mem_of_toJsonMembers hms hm with hb | ⟨d, -, hr⟩
      · cases hb
      · exact ih n n.lt_succ_self hr
    | misspelt f => cases h
    | absent f => cases h

theorem Ordered.child {j : Json} (h : j.Ordered) {d : Draft} (hd : d.Child j.toDraft) :
    ∃ v : Json, d = v.toDraft ∧ v.Ordered := by
  rcases exists_of_child_toDraft hd with ⟨xs, rfl, x, hx, rfl⟩ | ⟨ms, rfl, m, hm, rfl⟩
  · cases h with
    | arr hall => exact ⟨x, rfl, hall x hx⟩
  · cases h with
    | obj _ hall => exact ⟨m.2, rfl, hall m hm⟩

/-! ## A text is the text of one value -/

mutual
theorem eq_of_toDraft_eq : ∀ {j j' : Json}, toDraft j = toDraft j' → j = j'
  | .null, j', h => by cases j' <;> simp [toDraft] at h ⊢
  | .bool b, j', h => by cases j' <;> simp [toDraft] at h ⊢; exact h
  | .num n, j', h => by cases j' <;> simp [toDraft, Token.sound] at h ⊢; exact h
  | .str s, j', h => by cases j' <;> simp [toDraft, Token.sound] at h ⊢; exact h
  | .arr xs, j', h => by
    cases j' <;> simp [toDraft] at h ⊢
    exact eq_of_toDraftItems_eq h
  | .obj ms, j', h => by
    cases j' <;> simp [toDraft] at h ⊢
    exact eq_of_toDraftMembers_eq h

theorem eq_of_toDraftItems_eq : ∀ {xs ys : List Json}, toDraftItems xs = toDraftItems ys → xs = ys
  | [], ys, h => by cases ys <;> simp [toDraftItems] at h ⊢
  | x :: xs, ys, h => by
    cases ys <;> simp [toDraftItems] at h ⊢
    exact ⟨eq_of_toDraft_eq h.1, eq_of_toDraftItems_eq h.2⟩

theorem eq_of_toDraftMembers_eq : ∀ {ms ns : List (String × Json)},
    toDraftMembers ms = toDraftMembers ns → ms = ns
  | [], ns, h => by cases ns <;> simp [toDraftMembers] at h ⊢
  | (k, v) :: ms, ns, h => by
    cases ns <;> simp [toDraftMembers, Token.sound, Prod.ext_iff] at h ⊢
    exact ⟨⟨h.1.1, eq_of_toDraft_eq h.1.2⟩, eq_of_toDraftMembers_eq h.2⟩
end

theorem compact_inj {j j' : Json} (h : j.InRange) (h' : j'.InRange) :
    j.compact = j'.compact ↔ j = j' := by
  refine ⟨fun heq => ?_, fun heq => heq ▸ rfl⟩
  have hread := readWith_compact (fun d => .ok d) h
  rw [heq, readWith_compact _ h'] at hread
  exact (eq_of_toDraft_eq (Except.ok.inj hread)).symm

theorem pretty_inj {j j' : Json} (h : j.InRange) (h' : j'.InRange) :
    j.pretty = j'.pretty ↔ j = j' := by
  refine ⟨fun heq => ?_, fun heq => heq ▸ rfl⟩
  have hread := readWith_pretty (fun d => .ok d) h
  rw [heq, readWith_pretty _ h'] at hread
  exact (eq_of_toDraft_eq (Except.ok.inj hread)).symm

end Json
end Verdict
