import Mathlib.Data.Finset.Card
import Verdict.Proofs.Store.History

/-!
# Recently accessed archives

As long as no entry is left alone for too long and nothing is taken out, a store holds exactly the
names accessed last, as many as there is room for. So a look-up succeeds if fewer other names have
been accessed since the last access to its own.
-/

namespace Verdict

namespace Recency

variable {α : Type} {l : List α} {n : Nat}

theorem rtake_append_of_le_length {old last : List α} (h : n ≤ last.length) :
    (old ++ last).rtake n = last.rtake n := by
  rw [List.rtake, List.rtake, List.length_append, Nat.add_sub_assoc h, List.drop_append]
  simp

variable [DecidableEq α] {x : α}

/-- The names in a list, each at the place of its last occurrence, with one more at the end. -/
theorem dedup_concat (l : List α) (x : α) : (l ++ [x]).dedup = l.dedup.erase x ++ [x] := by
  induction l with
  | nil => simp
  | cons y l ih =>
    rw [List.cons_append]
    by_cases hxy : y = x
    · subst hxy
      rw [List.dedup_cons_of_mem (by simp), ih]
      by_cases hy : y ∈ l
      · rw [List.dedup_cons_of_mem hy]
      · have hd : y ∉ l.dedup := mt List.mem_dedup.mp hy
        rw [List.dedup_cons_of_notMem hy, List.erase_cons_head, List.erase_of_not_mem hd]
    · by_cases hy : y ∈ l
      · rw [List.dedup_cons_of_mem (List.mem_append_left _ hy), List.dedup_cons_of_mem hy, ih]
      · have hyl : y ∉ l ++ [x] := by simp [hy, hxy]
        rw [List.dedup_cons_of_notMem hyl, List.dedup_cons_of_notMem hy, ih,
          List.erase_cons_tail (by simpa using hxy), List.cons_append]

/-- To know the last elements after one more, it is enough to know the last ones before. -/
theorem rtake_erase_concat (h : l.Nodup) (n : Nat) (x : α) :
    ((l.rtake n).erase x ++ [x]).rtake n = (l.erase x ++ [x]).rtake n := by
  by_cases hn : l.length ≤ n
  · rw [rtake_of_length_le hn]
  · obtain ⟨old, hl⟩ : ∃ old, l = old ++ l.rtake n := ⟨_, (List.take_append_drop _ l).symm⟩
    have hlength : (l.rtake n).length = n := by
      rw [length_rtake, min_eq_left (Nat.le_of_not_le hn)]
    generalize l.rtake n = last at hl hlength ⊢
    subst hl
    have hroom : n ≤ (last.erase x ++ [x]).length := by
      rw [List.length_append, List.length_erase, List.length_singleton]
      split_ifs <;> omega
    rw [List.erase_append]
    split_ifs with hx
    · -- The element was dropped already, so all of the last ones stay ahead of it.
      have hlast : x ∉ last := fun hm => (List.nodup_append.mp h).2.2 x hx x hm rfl
      rw [List.erase_of_not_mem hlast] at hroom ⊢
      rw [List.append_assoc, rtake_append_of_le_length hroom]
    · rw [List.append_assoc, rtake_append_of_le_length hroom]

/-- Behind the last occurrence of an element are those that follow it. -/
theorem exists_last_occurrence (h : x ∈ l) :
    ∃ old since, l = old ++ x :: since ∧ x ∉ since ∧ l.rtakeWhile (· ≠ x) = since := by
  obtain ⟨since, old, hl, hx⟩ := List.eq_append_cons_of_mem (List.mem_reverse.mpr h)
  have hsince : ∀ y ∈ since, decide (y ≠ x) = true := fun y hy =>
    decide_eq_true fun hyx => hx (hyx ▸ hy)
  refine ⟨old.reverse, since.reverse, ?_, mt List.mem_reverse.mp hx, ?_⟩
  · rw [← List.reverse_reverse l, hl]
    simp
  · rw [List.rtakeWhile, hl, List.takeWhile_append_of_pos hsince,
      List.takeWhile_cons_of_neg (by simp), List.append_nil]

/-- An element is among the last distinct ones if few others follow its last occurrence. -/
theorem mem_rtake_dedup_iff : x ∈ l.dedup.rtake n ↔
    x ∈ l ∧ (l.rtakeWhile (· ≠ x)).toFinset.card < n := by
  by_cases hx : x ∈ l
  · obtain ⟨old, since, rfl, hsince, hlast⟩ := exists_last_occurrence hx
    rw [hlast, List.card_toFinset, and_iff_right hx]
    obtain ⟨distinct, hdedup⟩ : ∃ distinct, (old ++ x :: since).dedup =
        distinct ++ x :: since.dedup := by
      rw [List.dedup_append, List.dedup_cons_of_notMem hsince]
      obtain ⟨distinct, h⟩ := List.suffix_union_right old (x :: since.dedup)
      exact ⟨distinct, h.symm⟩
    rw [hdedup]
    constructor
    · intro h
      by_contra hn
      rw [List.append_cons, rtake_append_of_le_length (Nat.not_lt.mp hn)] at h
      exact hsince (List.mem_dedup.mp (List.mem_of_mem_drop h))
    · intro h
      have hle : (distinct ++ x :: since.dedup).length - n ≤ distinct.length := by
        rw [List.length_append, List.length_cons]
        omega
      rw [List.rtake, List.drop_append_of_le_length hle]
      exact List.mem_append_right _ List.mem_cons_self
  · have hnot : x ∉ l.dedup.rtake n := fun h => hx (List.mem_dedup.mp (List.mem_of_mem_drop h))
    exact iff_of_false hnot fun h => hx h.1

end Recency

namespace StoreCall

/-- Whether a call registers an archive or looks one up. -/
def isUse : StoreCall → Bool
  | register .. | get .. => true
  | load .. | unload .. => false

/-- When a call is made, for those that drop idle entries. -/
def time? : StoreCall → Option Nat
  | load _ _ _ now | register _ _ now | get _ now => some now
  | unload _ => none

/-- The archive that a call registers under a name. -/
def registered? (name : VersionedId) : StoreCall → Option LoadedArchive
  | register other archive _ => if other = name then some archive else none
  | load .. | get .. | unload .. => none

/-- The archive registered last under a name. -/
def lastRegistered? (name : VersionedId) (calls : List StoreCall) : Option LoadedArchive :=
  (calls.filterMap (registered? name)).getLast?

theorem lastRegistered?_concat (name : VersionedId) (calls : List StoreCall) (c : StoreCall) :
    lastRegistered? name (calls ++ [c]) =
      (c.registered? name).or (lastRegistered? name calls) := by
  rw [lastRegistered?, List.filterMap_append]
  cases h : c.registered? name <;> simp [h, lastRegistered?]

theorem exists_lastRegistered?_iff {name : VersionedId} {calls : List StoreCall} :
    (∃ archive, lastRegistered? name calls = some archive) ↔
      ∃ archive time, register name archive time ∈ calls := by
  constructor
  · rintro ⟨archive, h⟩
    obtain ⟨c, hc, hr⟩ := List.mem_filterMap.mp (List.mem_of_getLast? h)
    cases c with
    | register other archive' time =>
      rw [registered?] at hr
      split_ifs at hr with hn
      exact ⟨archive', time, hn ▸ hc⟩
    | load | get | unload => cases hr
  · rintro ⟨archive, time, hc⟩
    have hmem : archive ∈ calls.filterMap (registered? name) :=
      List.mem_filterMap.mpr ⟨_, hc, if_pos rfl⟩
    exact Option.isSome_iff_exists.mp (List.getLast?_isSome.mpr (List.ne_nil_of_mem hmem))

end StoreCall

namespace Store

/-- No entry has been left alone for too long at a time. -/
def Active (s : Store) (now : Nat) : Prop :=
  ∀ e ∈ s.entries.values, now - e.lastAccess < s.config.timeToIdle

instance (s : Store) (now : Nat) : Decidable (s.Active now) :=
  inferInstanceAs (Decidable (∀ e ∈ s.entries.values, _))

/-- No entry is left alone for too long before one of the calls. -/
def NeverIdle (s : Store) : List StoreCall → Prop
  | [] => True
  | c :: cs => (∀ now ∈ c.time?, s.Active now) ∧ (s.after c).NeverIdle cs

instance decidableNeverIdle : (s : Store) → (calls : List StoreCall) → Decidable (s.NeverIdle calls)
  | _, [] => isTrue trivial
  | s, c :: cs =>
    have := decidableNeverIdle (s.after c) cs
    inferInstanceAs (Decidable ((∀ now ∈ c.time?, s.Active now) ∧ (s.after c).NeverIdle cs))

variable {s : Store}

theorem fresh_of_active {now : Nat} (h : s.Active now) : s.fresh now = s.entries := by
  rw [fresh, Table.filter, List.filter_eq_self.mpr]
  intro e he
  rw [decide_eq_true_eq]
  exact h e.2 (List.mem_map_of_mem he)

theorem neverIdle_concat (s : Store) (calls : List StoreCall) (c : StoreCall) :
    s.NeverIdle (calls ++ [c]) ↔
      s.NeverIdle calls ∧ ∀ now ∈ c.time?, (s.run calls).Active now := by
  induction calls generalizing s with
  | nil => simp [NeverIdle, run]
  | cons c' cs ih => rw [List.cons_append, NeverIdle, ih, NeverIdle, run, run, List.foldl_cons,
      and_assoc]

theorem get_of_active {name : VersionedId} {now : Nat} (active : s.Active now) {e : StoreEntry}
    (h : s.entries.find? name = some e) : s.get name now =
      ({ s with entries := s.entries.renew name { e with lastAccess := now } }, .ok e.archive) := by
  rw [← fresh_of_active active] at h
  rw [get_of_find? h, fresh_of_active active]

theorem get_of_active_of_eq_none {name : VersionedId} {now : Nat} (active : s.Active now)
    (h : s.entries.find? name = none) : s.get name now = (s, .error (.notLoaded name)) := by
  rw [← fresh_of_active active] at h
  rw [get_of_find?_eq_none h, fresh_of_active active]

/-- Registering a name that is there changes no other entry. -/
theorem Orderly.find?_register_of_mem {config : StoreConfig} {accessed : List Access}
    (h : s.Orderly config accessed) {now : Nat} (active : s.Active now) {name other : VersionedId}
    (hname : name ∈ s.entries.keys) (hother : other ≠ name) (archive : LoadedArchive) :
    (s.register name archive now).entries.find? other = s.entries.find? other := by
  have hroom : (s.entries.renew name ⟨archive, now⟩).size ≤ s.config.maxEntries := by
    rw [h.config_eq]
    exact (Table.size_renew_le hname).trans h.bounded
  rw [register_eq h.recorded.distinct, fresh_of_active active, Table.shrink_of_size_le hroom,
    h.recorded.distinct.find?_renew, if_neg hother]

/-- A store holds the names accessed last, each with the archive registered last. -/
structure Recent (s : Store) (accessed : List Access) (calls : List StoreCall) : Prop where
  keys_eq : s.entries.keys = (accessed.map Access.name).dedup.rtake s.config.maxEntries
  archive_eq : ∀ name e, s.entries.find? name = some e →
    StoreCall.lastRegistered? name calls = some e.archive
  mem_accessed_iff : ∀ name, name ∈ accessed.map Access.name ↔
    ∃ archive, StoreCall.lastRegistered? name calls = some archive

namespace Recent

variable {config : StoreConfig} {accessed : List Access} {calls : List StoreCall}

theorem new (h : Store.new config = .ok s) : s.Recent [] [] := by
  obtain ⟨-, -, rfl⟩ := new_eq_ok_iff.mp h
  exact ⟨by simp [Table.keys, Table.empty], by simp, by simp [StoreCall.lastRegistered?]⟩

theorem rtake_keys_renew (h : s.Recent accessed calls) (name : VersionedId) (e : StoreEntry) :
    (s.entries.renew name e).keys.rtake s.config.maxEntries =
      ((accessed ++ [Access.mk name e.lastAccess]).map Access.name).dedup.rtake
        s.config.maxEntries := by
  rw [Table.keys_renew, h.keys_eq, Recency.rtake_erase_concat (List.nodup_dedup _), List.map_append,
    List.map_singleton, Recency.dedup_concat]

theorem register (h : s.Recent accessed calls) (ho : s.Orderly config accessed) {now : Nat}
    (active : s.Active now) (name : VersionedId) (archive : LoadedArchive) :
    (s.register name archive now).Recent (accessed ++ [⟨name, now⟩])
      (calls ++ [.register name archive now]) := by
  have hrenewed := ho.recorded.distinct.renew name ⟨archive, now⟩
  rw [register_eq ho.recorded.distinct, fresh_of_active active]
  constructor
  · rw [Table.keys_shrink]
    exact h.rtake_keys_renew name ⟨archive, now⟩
  · intro other e he
    have he := hrenewed.find?_of_sublist (Table.sublist_shrink _) he
    rw [ho.recorded.distinct.find?_renew] at he
    rw [StoreCall.lastRegistered?_concat, StoreCall.registered?]
    split_ifs at he with hn
    · rw [if_pos hn.symm, ← Option.some.inj he, Option.some_or]
    · rw [if_neg (Ne.symm hn), Option.none_or, h.archive_eq other e he]
  · intro other
    rw [StoreCall.lastRegistered?_concat, StoreCall.registered?, List.map_append, List.mem_append,
      List.map_singleton, List.mem_singleton]
    by_cases hn : other = name
    · simp [hn]
    · rw [if_neg (Ne.symm hn), Option.none_or, ← h.mem_accessed_iff, or_iff_left hn]

theorem get (h : s.Recent accessed calls) (ho : s.Orderly config accessed) {now : Nat}
    (active : s.Active now) (name : VersionedId) :
    (s.get name now).1.Recent (accessed ++ (s.access? (.get name now)).toList)
      (calls ++ [.get name now]) := by
  have hlast : ∀ other, StoreCall.lastRegistered? other (calls ++ [.get name now]) =
      StoreCall.lastRegistered? other calls := fun other =>
    (StoreCall.lastRegistered?_concat ..).trans (Option.none_or ..)
  rw [access?]
  cases hf : s.entries.find? name with
  | none =>
    rw [get_of_active_of_eq_none active hf]
    simp only [Except.toOption, Option.map_none, Option.toList_none, List.append_nil]
    exact ⟨h.keys_eq, by simpa only [hlast] using h.archive_eq,
      by simpa only [hlast] using h.mem_accessed_iff⟩
  | some e =>
    rw [get_of_active active hf]
    have hmem := Table.mem_keys_of_find? hf
    -- A hit adds no key, so nothing has to be dropped.
    have hlength : (s.entries.renew name { e with lastAccess := now }).keys.length ≤
        s.config.maxEntries := by
      rw [← Table.size_eq_length_keys, ho.config_eq]
      exact (Table.size_renew_le hmem).trans ho.bounded
    constructor
    · exact (rtake_of_length_le hlength).symm.trans
        (h.rtake_keys_renew name { e with lastAccess := now })
    · intro other e' he'
      rw [ho.recorded.distinct.find?_renew] at he'
      rw [hlast]
      split_ifs at he' with hn
      · rw [hn, h.archive_eq name e hf, ← Option.some.inj he']
      · exact h.archive_eq other e' he'
    · intro other
      have hname := ho.recorded.mem_names hmem
      simp only [Except.toOption, Option.map_some, Option.toList_some, List.map_append,
        List.map_singleton, List.mem_append, List.mem_singleton, hlast, ← h.mem_accessed_iff]
      exact or_iff_left_of_imp fun hn => hn ▸ hname

theorem after (h : s.Recent accessed calls) (ho : s.Orderly config accessed) {c : StoreCall}
    (use : c.isUse) (active : ∀ now ∈ c.time?, s.Active now) :
    (s.after c).Recent (accessed ++ (s.access? c).toList) (calls ++ [c]) := by
  cases c with
  | register name archive now => exact h.register ho (active now rfl) name archive
  | get name now => exact h.get ho (active now rfl) name
  | load | unload => cases use

theorem run (h : Store.new config = .ok s) (uses : ∀ c ∈ calls, c.isUse)
    (active : s.NeverIdle calls) : (s.run calls).Recent (s.accesses calls) calls := by
  induction calls using List.reverseRecOn with
  | nil => exact .new h
  | append_singleton calls c ih =>
    rw [neverIdle_concat] at active
    rw [run_concat, accesses_concat]
    have uses' : ∀ c ∈ calls, c.isUse := fun c hc => uses c (List.mem_append_left _ hc)
    exact (ih uses' active.1).after (Orderly.run h calls) (uses c (by simp)) active.2

/-- A name is held if few others have been accessed since it was. -/
theorem mem_keys_iff (h : s.Recent accessed calls) (name : VersionedId) : name ∈ s.entries.keys ↔
    (∃ archive time, .register name archive time ∈ calls) ∧
      ((accessed.map Access.name).rtakeWhile (· ≠ name)).toFinset.card < s.config.maxEntries := by
  rw [h.keys_eq, Recency.mem_rtake_dedup_iff, h.mem_accessed_iff,
    StoreCall.exists_lastRegistered?_iff]

end Recent

/-- As long as no entry is left alone for too long, a look-up finds a name exactly if it has been
registered and fewer other names than there is room for have been accessed since its own last
access. It gives the archive registered last, and a miss changes nothing. Registering a name that is
there changes no other entry. -/
theorem get_exact {config : StoreConfig} {s₀ : Store} (h : new config = .ok s₀)
    {calls : List StoreCall} (uses : ∀ c ∈ calls, c.isUse) (active : s₀.NeverIdle calls)
    (name : VersionedId) (now : Nat) (active_now : (s₀.run calls).Active now) :
    let s := s₀.run calls
    let accessed := (s₀.accesses calls).map Access.name
    ((∃ archive, (s.get name now).2 = .ok archive) ↔
        (∃ archive time, .register name archive time ∈ calls) ∧
          (accessed.rtakeWhile (· ≠ name)).toFinset.card < config.maxEntries) ∧
      (∀ archive, (s.get name now).2 = .ok archive →
        StoreCall.lastRegistered? name calls = some archive) ∧
      (∀ e, (s.get name now).2 = .error e → e = .notLoaded name ∧ (s.get name now).1 = s) ∧
      (∀ archive, name ∈ s.entries.keys → ∀ other ≠ name,
        (s.register name archive now).entries.find? other = s.entries.find? other) := by
  have ho := Orderly.run h calls
  have hrecent := Recent.run h uses active
  have hmem := hrecent.mem_keys_iff name
  rw [ho.config_eq] at hmem
  have hkept : ∀ archive, name ∈ (s₀.run calls).entries.keys → ∀ other ≠ name,
      ((s₀.run calls).register name archive now).entries.find? other =
        (s₀.run calls).entries.find? other := fun archive hname _ hother =>
    ho.find?_register_of_mem active_now hname hother archive
  dsimp only
  rw [← hmem]
  cases hf : (s₀.run calls).entries.find? name with
  | none =>
    rw [get_of_active_of_eq_none active_now hf]
    refine ⟨iff_of_false ?_ (Table.find?_eq_none_iff.mp hf), ?_, ?_, hkept⟩
    · rintro ⟨archive, harchive⟩
      cases harchive
    · intro archive harchive
      cases harchive
    · intro e he
      exact ⟨(Except.error.inj he).symm, rfl⟩
  | some e =>
    rw [get_of_active active_now hf]
    refine ⟨iff_of_true ⟨_, rfl⟩ (Table.mem_keys_of_find? hf), ?_, ?_, hkept⟩
    · intro archive harchive
      rw [← Except.ok.inj harchive]
      exact hrecent.archive_eq name e hf
    · intro e' he'
      cases he'

theorem get_exact_thirdName :
    let s₀ : Store := ⟨⟨2, 60⟩, Table.empty⟩
    let s := s₀.run thirdName
    new ⟨2, 60⟩ = .ok s₀ ∧ (∀ c ∈ thirdName, c.isUse) ∧ s₀.NeverIdle thirdName ∧ s.Active 3 ∧
      (∃ archive, (s.get ⟨"a", 1⟩ 3).2 = .ok archive) ∧
      ¬∃ archive, (s.get ⟨"b", 1⟩ 3).2 = .ok archive := by
  have created : new ⟨2, 60⟩ = .ok ⟨⟨2, 60⟩, Table.empty⟩ := rfl
  have uses : ∀ c ∈ thirdName, c.isUse := by decide
  have active : Store.NeverIdle ⟨⟨2, 60⟩, Table.empty⟩ thirdName := by decide
  have active_now : (Store.run ⟨⟨2, 60⟩, Table.empty⟩ thirdName).Active 3 := by decide
  have found := fun name => (get_exact created uses active name 3 active_now).1
  refine ⟨created, uses, active, active_now, (found ⟨"a", 1⟩).mpr ?_, mt (found ⟨"b", 1⟩).mp ?_⟩
  · exact ⟨⟨_, _, List.mem_cons_self⟩, by decide⟩
  · rintro ⟨-, hroom⟩
    revert hroom
    decide

end Store
end Verdict
