import Verdict.Proofs.Table.Order
import Verdict.Store

/-!
# Histories of stores

An archive is accessed when it is registered, be it by a load, and when a look-up finds it. Whatever
calls a store has answered, it holds no name twice and no more entries than it may, and the entries
are in the order in which they were last accessed. So the one that has to make room for another is
the one accessed longest ago.
-/

namespace Verdict

/-- In a list the last occurrence of one element comes before that of another. -/
def LastBefore {α : Type} (l : List α) (x y : α) : Prop :=
  ∃ early late, l = early ++ late ∧ x ∈ early ∧ x ∉ late ∧ y ∈ late

namespace LastBefore

variable {α : Type} {l : List α} {x y z : α}

theorem concat (h : LastBefore l x y) (hx : x ≠ z) : LastBefore (l ++ [z]) x y := by
  obtain ⟨early, late, rfl, hearly, hlate, hy⟩ := h
  refine ⟨early, late ++ [z], List.append_assoc .., hearly, ?_, List.mem_append_left _ hy⟩
  rw [List.mem_append, List.mem_singleton]
  exact not_or_intro hlate hx

theorem of_mem (h : x ∈ l) (hx : x ≠ z) : LastBefore (l ++ [z]) x z :=
  ⟨l, [z], rfl, h, mt List.mem_singleton.mp hx, List.mem_singleton_self z⟩

end LastBefore

/-- The use of an archive at a time. -/
structure Access where
  name : VersionedId
  time : Nat
  deriving DecidableEq, Repr

namespace Access

/-- The time of the last access to a name. -/
def last? (name : VersionedId) (accessed : List Access) : Option Nat :=
  ((accessed.filter fun a => a.name = name).getLast?).map Access.time

theorem last?_concat (name : VersionedId) (accessed : List Access) (a : Access) :
    last? name (accessed ++ [a]) = if a.name = name then some a.time else last? name accessed := by
  rw [last?, List.filter_append]
  split_ifs with h <;> simp [h, last?]

theorem mem_names_of_last? {name : VersionedId} {accessed : List Access} {time : Nat}
    (h : last? name accessed = some time) : name ∈ accessed.map Access.name := by
  obtain ⟨a, ha, -⟩ := Option.map_eq_some_iff.mp h
  have hmem := List.mem_of_getLast? ha
  rw [List.mem_filter, decide_eq_true_eq] at hmem
  exact List.mem_map.mpr ⟨a, hmem⟩

end Access

/-- A call on a store. -/
inductive StoreCall where
  | load (name : VersionedId) (tree : FileTree) (path : String) (now : Nat)
  | register (name : VersionedId) (archive : LoadedArchive) (now : Nat)
  | get (name : VersionedId) (now : Nat)
  | unload (name : VersionedId)

namespace Store

/-- Entries under distinct names in the order of their last access, which each of them notes. -/
structure Recorded (entries : Table VersionedId StoreEntry) (accessed : List Access) : Prop where
  distinct : entries.Distinct
  ordered : entries.keys.Pairwise (LastBefore (accessed.map Access.name))
  noted : ∀ name e, entries.find? name = some e → Access.last? name accessed = some e.lastAccess

namespace Recorded

variable {entries rest : Table VersionedId StoreEntry} {accessed : List Access}

theorem empty : Recorded Table.empty [] where
  distinct := Table.distinct_empty
  ordered := List.Pairwise.nil
  noted := by simp

theorem of_sublist (h : Recorded entries accessed) (hs : rest.entries.Sublist entries.entries) :
    Recorded rest accessed where
  distinct := h.distinct.of_sublist hs
  ordered := h.ordered.sublist (hs.map _)
  noted := fun name e he => h.noted name e (h.distinct.find?_of_sublist hs he)

theorem mem_names (h : Recorded entries accessed) {name : VersionedId} (hn : name ∈ entries.keys) :
    name ∈ accessed.map Access.name := by
  obtain ⟨e, he⟩ := Table.exists_find?_of_mem_keys hn
  exact Access.mem_names_of_last? (h.noted name e he)

/-- Renewing an entry records one more access. -/
theorem renew (h : Recorded entries accessed) (name : VersionedId) (e : StoreEntry) :
    Recorded (entries.renew name e) (accessed ++ [⟨name, e.lastAccess⟩]) where
  distinct := h.distinct.renew name e
  ordered := by
    have hne : ∀ other ∈ entries.keys.erase name, other ≠ name := fun other ho hn =>
      List.Nodup.not_mem_erase h.distinct (hn ▸ ho)
    rw [Table.keys_renew, List.map_append, List.map_singleton, List.pairwise_append]
    refine ⟨?_, List.pairwise_singleton _ _, ?_⟩
    · have hkept := h.ordered.sublist (List.erase_sublist (a := name))
      exact hkept.imp_of_mem fun hx _ hxy => hxy.concat (hne _ hx)
    · intro other ho last hlast
      rw [List.mem_singleton.mp hlast]
      exact LastBefore.of_mem (h.mem_names (List.mem_of_mem_erase ho)) (hne other ho)
  noted := by
    intro other e' he'
    rw [h.distinct.find?_renew] at he'
    rw [Access.last?_concat]
    by_cases hn : other = name
    · rw [if_pos hn, Option.some.injEq] at he'
      rw [if_pos hn.symm, he']
    · rw [if_neg hn] at he'
      rw [if_neg (Ne.symm hn), h.noted other e' he']

end Recorded

theorem new_eq_ok_iff {config : StoreConfig} {s : Store} : new config = .ok s ↔
    0 < config.maxEntries ∧ 0 < config.timeToIdle ∧ s = ⟨config, Table.empty⟩ := by
  rw [new, StoreConfig.fault?]
  split_ifs with hc ht
  · simp [hc]
  · simp [ht]
  · simp [Nat.pos_of_ne_zero hc, Nat.pos_of_ne_zero ht, eq_comm]

variable {s : Store}

theorem sublist_fresh (s : Store) (now : Nat) :
    (s.fresh now).entries.Sublist s.entries.entries :=
  Table.sublist_filter _

theorem distinct_fresh (h : s.entries.Distinct) (now : Nat) : (s.fresh now).Distinct :=
  h.of_sublist (s.sublist_fresh now)

theorem register_eq (h : s.entries.Distinct) (name : VersionedId) (archive : LoadedArchive)
    (now : Nat) : s.register name archive now = { s with
      entries := ((s.fresh now).renew name ⟨archive, now⟩).shrink s.config.maxEntries } := by
  rw [register, (distinct_fresh h now).insert_erase]

/-- The position of a name serves to renew its entry. -/
theorem exists_touch {entries : Table VersionedId StoreEntry} {name : VersionedId} {e : StoreEntry}
    (h : entries.find? name = some e) (now : Nat) : ∃ position,
      entries.position? name = some position ∧ touch entries position now =
        .ok (entries.renew name { e with lastAccess := now }, e.archive) := by
  obtain ⟨before, behind, hsplit, hbefore⟩ := Table.exists_split h
  obtain ⟨hposition, hmove⟩ := Table.move?_position hsplit hbefore
  refine ⟨before.length, hposition, ?_⟩
  have hsize : entries.size = (before ++ behind).length + 1 := by
    rw [Table.size, hsplit]
    simp only [List.length_append, List.length_cons]
    omega
  have hrest : (entries.erase name).entries.length = (before ++ behind).length := by
    have hkeys := List.length_erase_of_mem (Table.mem_keys_of_find? h)
    rw [← Table.keys_erase, ← Table.size_eq_length_keys, ← Table.size_eq_length_keys,
      hsize] at hkeys
    exact hkeys
  simp only [touch, hsize, hmove, Table.renew]
  rw [← hrest, List.getElem?_append_right (Nat.le_refl _), Nat.sub_self, List.getElem?_cons_zero]
  simp

theorem get_of_find? {name : VersionedId} {now : Nat} {e : StoreEntry}
    (h : (s.fresh now).find? name = some e) : s.get name now = ({ s with
      entries := (s.fresh now).renew name { e with lastAccess := now } }, .ok e.archive) := by
  obtain ⟨position, hposition, htouch⟩ := exists_touch h now
  simp only [get, hposition, htouch]

theorem get_of_find?_eq_none {name : VersionedId} {now : Nat}
    (h : (s.fresh now).find? name = none) :
    s.get name now = ({ s with entries := s.fresh now }, .error (.notLoaded name)) := by
  simp only [get, Table.position?_eq_none_iff.mpr (Table.find?_eq_none_iff.mp h)]

/-- The store after a call. -/
def after (s : Store) : StoreCall → Store
  | .load name tree path now => (s.load name tree path now).1
  | .register name archive now => s.register name archive now
  | .get name now => (s.get name now).1
  | .unload name => (s.unload name).1

/-- What a call accesses: a load and a look-up do if they succeed. -/
def access? (s : Store) : StoreCall → Option Access
  | .load name tree path now => (s.load name tree path now).2.toOption.map fun _ => ⟨name, now⟩
  | .register name _ now => some ⟨name, now⟩
  | .get name now => (s.get name now).2.toOption.map fun _ => ⟨name, now⟩
  | .unload _ => none

/-- The store after calls made one after the other. -/
def run (s : Store) (calls : List StoreCall) : Store := calls.foldl after s

/-- What calls made one after the other access. -/
def accesses (s : Store) : List StoreCall → List Access
  | [] => []
  | c :: cs => (s.access? c).toList ++ (s.after c).accesses cs

theorem run_concat (s : Store) (calls : List StoreCall) (c : StoreCall) :
    s.run (calls ++ [c]) = (s.run calls).after c := by
  rw [run, List.foldl_concat, run]

theorem accesses_concat (s : Store) (calls : List StoreCall) (c : StoreCall) :
    s.accesses (calls ++ [c]) = s.accesses calls ++ ((s.run calls).access? c).toList := by
  induction calls generalizing s with
  | nil => simp [accesses, run]
  | cons c' cs ih => rw [List.cons_append, accesses, ih, accesses, List.append_assoc, run, run,
      List.foldl_cons]

/-- A store that keeps to its bound, with its entries in the order of their last access. -/
structure Orderly (config : StoreConfig) (s : Store) (accessed : List Access) : Prop where
  config_eq : s.config = config
  recorded : Recorded s.entries accessed
  bounded : s.size ≤ config.maxEntries

namespace Orderly

variable {config : StoreConfig} {accessed : List Access}

theorem new (h : Store.new config = .ok s) : s.Orderly config [] := by
  obtain ⟨-, -, rfl⟩ := new_eq_ok_iff.mp h
  exact ⟨rfl, .empty, Nat.zero_le _⟩

theorem of_sublist (h : s.Orderly config accessed) {rest : Table VersionedId StoreEntry}
    (hs : rest.entries.Sublist s.entries.entries) :
    { s with entries := rest }.Orderly config accessed :=
  ⟨h.config_eq, h.recorded.of_sublist hs, hs.length_le.trans h.bounded⟩

theorem register (h : s.Orderly config accessed) (name : VersionedId) (archive : LoadedArchive)
    (now : Nat) : (s.register name archive now).Orderly config (accessed ++ [⟨name, now⟩]) := by
  rw [register_eq h.recorded.distinct]
  have hrenewed := (h.recorded.of_sublist (s.sublist_fresh now)).renew name ⟨archive, now⟩
  refine ⟨h.config_eq, hrenewed.of_sublist (Table.sublist_shrink _), ?_⟩
  rw [← h.config_eq]
  exact Table.size_shrink_le _ _

theorem load (h : s.Orderly config accessed) (name : VersionedId) (tree : FileTree) (path : String)
    (now : Nat) : (s.load name tree path now).1.Orderly config
      (accessed ++ (s.access? (.load name tree path now)).toList) := by
  rw [access?, Store.load]
  cases LoadedArchive.load tree path with
  | error e => simpa [Except.toOption] using h
  | ok archive => exact h.register name archive now

theorem get (h : s.Orderly config accessed) (name : VersionedId) (now : Nat) :
    (s.get name now).1.Orderly config
      (accessed ++ (s.access? (.get name now)).toList) := by
  rw [access?]
  cases hf : (s.fresh now).find? name with
  | none =>
    rw [get_of_find?_eq_none hf]
    simpa [Except.toOption] using h.of_sublist (s.sublist_fresh now)
  | some e =>
    rw [get_of_find? hf]
    have hfresh := h.of_sublist (s.sublist_fresh now)
    refine ⟨h.config_eq, hfresh.recorded.renew name { e with lastAccess := now }, ?_⟩
    exact (Table.size_renew_le (Table.mem_keys_of_find? hf)).trans hfresh.bounded

/-- Every call keeps a store orderly. -/
theorem after (h : s.Orderly config accessed) (c : StoreCall) :
    (s.after c).Orderly config (accessed ++ (s.access? c).toList) := by
  cases c with
  | load name tree path now => exact h.load name tree path now
  | register name archive now => exact h.register name archive now
  | get name now => exact h.get name now
  | unload name =>
    rw [access?, Option.toList_none, List.append_nil]
    exact h.of_sublist (Table.sublist_erase name)

theorem run (h : Store.new config = .ok s) (calls : List StoreCall) :
    (s.run calls).Orderly config (s.accesses calls) := by
  induction calls using List.reverseRecOn with
  | nil => exact .new h
  | append_singleton calls c ih =>
    rw [run_concat, accesses_concat]
    exact ih.after c

/-- Registering drops at most one entry that is not idle: the one accessed longest ago. -/
theorem exists_evicted (h : s.Orderly config accessed) (room : 0 < config.maxEntries)
    (name : VersionedId) (archive : LoadedArchive) (now : Nat) : ∃ evicted kept,
      ((s.fresh now).erase name).entries = evicted ++ kept ∧ evicted.length ≤ 1 ∧
      (s.register name archive now).entries.entries = kept ++ [(name, ⟨archive, now⟩)] ∧
      ∀ e ∈ evicted, ∀ e' ∈ kept, LastBefore (accessed.map Access.name) e.1 e'.1 := by
  obtain ⟨m, hm⟩ : ∃ m, config.maxEntries = m + 1 :=
    Nat.exists_eq_succ_of_ne_zero (Nat.ne_of_gt room)
  have hothers : ((s.fresh now).erase name).entries.Sublist s.entries.entries :=
    (Table.sublist_erase name).trans (s.sublist_fresh now)
  have hordered := (h.recorded.of_sublist hothers).ordered
  have hlength : ((s.fresh now).erase name).entries.length ≤ m + 1 := by
    rw [← hm]
    exact hothers.length_le.trans h.bounded
  have hentries : (s.register name archive now).entries.entries =
      ((s.fresh now).erase name).entries.rtake m ++ [(name, ⟨archive, now⟩)] := by
    rw [register_eq h.recorded.distinct, Table.entries_shrink, h.config_eq, hm, Table.renew,
      List.rtake_concat_succ]
  rw [hentries]
  generalize (s.fresh now).erase name = others at hordered hlength ⊢
  have hsplit := (List.take_append_drop (others.entries.length - m) others.entries).symm
  refine ⟨_, _, hsplit, ?_, rfl, ?_⟩
  · rw [List.length_take]
    omega
  · rw [Table.keys, hsplit, List.pairwise_map, List.pairwise_append] at hordered
    exact hordered.2.2

/-- A look-up changes no archive; only idle entries go. -/
theorem archive_get (h : s.Orderly config accessed) (name : VersionedId) (now : Nat)
    (other : VersionedId) : ((s.get name now).1.entries.find? other).map StoreEntry.archive =
      ((s.fresh now).find? other).map StoreEntry.archive := by
  cases hf : (s.fresh now).find? name with
  | none => rw [get_of_find?_eq_none hf]
  | some e =>
    rw [get_of_find? hf, (distinct_fresh h.recorded.distinct now).find?_renew]
    split_ifs with hn
    · rw [hn, hf]
      rfl
    · rfl

end Orderly

/-- Whatever calls a store has answered, it is orderly. Then registering drops at most one entry
that is not idle, the one accessed longest ago; a look-up changes no archive and never meets a
position that does not exist; taking a name out keeps the others in order, and a load that fails
changes nothing. -/
theorem orderly_run {config : StoreConfig} {s₀ : Store} (h : new config = .ok s₀)
    (calls : List StoreCall) :
    let s := s₀.run calls
    let accessed := s₀.accesses calls
    s.Orderly config accessed ∧
      (∀ name archive now, ∃ evicted kept,
        ((s.fresh now).erase name).entries = evicted ++ kept ∧ evicted.length ≤ 1 ∧
        (s.register name archive now).entries.entries = kept ++ [(name, ⟨archive, now⟩)] ∧
        ∀ e ∈ evicted, ∀ e' ∈ kept, LastBefore (accessed.map Access.name) e.1 e'.1) ∧
      (∀ name now other, ((s.get name now).1.entries.find? other).map StoreEntry.archive =
        ((s.fresh now).find? other).map StoreEntry.archive) ∧
      (∀ name, (s.unload name).1.entries.entries = s.entries.entries.filter fun e => e.1 ≠ name) ∧
      (∀ name tree path now cause, LoadedArchive.load tree path = .error cause →
        s.load name tree path now = (s, .error (.load cause))) ∧
      (∀ name now position, (s.fresh now).position? name = some position →
        ∃ r, touch (s.fresh now) position now = .ok r) := by
  have horderly := Orderly.run h calls
  have room : 0 < config.maxEntries := (new_eq_ok_iff.mp h).1
  refine ⟨horderly, horderly.exists_evicted room, horderly.archive_get, ?_, ?_, ?_⟩
  · intro name
    exact horderly.recorded.distinct.entries_erase
  · intro name tree path now cause hcause
    rw [load, hcause]
  · intro name now position hposition
    have hmem : name ∈ ((s₀.run calls).fresh now).keys := by
      by_contra hn
      rw [Table.position?_eq_none_iff.mpr hn] at hposition
      cases hposition
    obtain ⟨e, he⟩ := Table.exists_find?_of_mem_keys hmem
    obtain ⟨p, hp, htouch⟩ := exists_touch he now
    rw [hp, Option.some.injEq] at hposition
    exact ⟨_, hposition ▸ htouch⟩

/-- Two names are registered, the first is looked up, and a third takes the place of the second. -/
def thirdName : List StoreCall :=
  let archive (root : String) : LoadedArchive := ⟨⟨root, 1, 0, "test"⟩, Table.empty⟩
  [.register ⟨"a", 1⟩ (archive "a") 0, .register ⟨"b", 1⟩ (archive "b") 0, .get ⟨"a", 1⟩ 1,
    .register ⟨"c", 1⟩ (archive "c") 2]

theorem orderly_run_thirdName :
    let s₀ : Store := ⟨⟨2, 60⟩, Table.empty⟩
    let s := s₀.run thirdName
    new ⟨2, 60⟩ = .ok s₀ ∧ s.Orderly ⟨2, 60⟩ (s₀.accesses thirdName) ∧
      s.entries.keys = [⟨"a", 1⟩, ⟨"c", 1⟩] ∧
      (∃ r, touch (s.fresh 3) 0 3 = .ok r) ∧
      ∃ cause, LoadedArchive.load .empty "d.dar" = .error cause ∧
        s.load ⟨"d", 1⟩ .empty "d.dar" 3 = (s, .error (.load cause)) := by
  have created : new ⟨2, 60⟩ = .ok ⟨⟨2, 60⟩, Table.empty⟩ := rfl
  obtain ⟨orderly, -, -, -, hload, htouch⟩ := orderly_run created thirdName
  obtain ⟨cause, hcause⟩ : ∃ cause, LoadedArchive.load .empty "d.dar" = .error cause := ⟨_, rfl⟩
  exact ⟨created, orderly, by decide, htouch ⟨"a", 1⟩ 3 0 (by decide),
    cause, hcause, hload _ _ _ _ _ hcause⟩

end Store
end Verdict
