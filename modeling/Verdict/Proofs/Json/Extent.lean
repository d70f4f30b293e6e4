import Verdict.Proofs.Json.Reading
import Verdict.Proofs.Results

/-!
# What a text can hold

A value that was read has its numbers in range and its members sorted by key, and is nested no deeper
than the reader allows. So it can be written and read again.
-/

namespace Verdict.Json

open Results

/-- A value that a text can hold and that is read back whole: its numbers are in range, no object
repeats a key, and at most `n` arrays and objects stand inside each other. -/
inductive Storable : ℕ → Json → Prop
  | null {n : ℕ} : Storable n .null
  | bool {n : ℕ} (b : Bool) : Storable n (.bool b)
  | num {n : ℕ} {i : Number} : i.InRange → Storable n (.num i)
  | str {n : ℕ} (s : String) : Storable n (.str s)
  | arr {n : ℕ} {xs : List Json} : (∀ x ∈ xs, Storable n x) → Storable (n + 1) (.arr xs)
  | obj {n : ℕ} {ms : List (String × Json)} : (ms.map (·.1)).Nodup →
      (∀ m ∈ ms, Storable n m.2) → Storable (n + 1) (.obj ms)

mutual
/-- How many arrays and objects stand inside each other. -/
def depth : Json → ℕ
  | .arr xs => depthOfItems xs + 1
  | .obj ms => depthOfMembers ms + 1
  | _ => 0

def depthOfItems : List Json → ℕ
  | [] => 0
  | x :: xs => max (depth x) (depthOfItems xs)

def depthOfMembers : List (String × Json) → ℕ
  | [] => 0
  | (_, v) :: ms => max (depth v) (depthOfMembers ms)
end

theorem depthOfItems_le_iff {n : ℕ} {xs : List Json} :
    depthOfItems xs ≤ n ↔ ∀ x ∈ xs, x.depth ≤ n := by
  induction xs with
  | nil => simp [depthOfItems]
  | cons x xs ih => rw [depthOfItems, max_le_iff, ih, List.forall_mem_cons]

theorem depthOfMembers_le_iff {n : ℕ} {ms : List (String × Json)} :
    depthOfMembers ms ≤ n ↔ ∀ m ∈ ms, m.2.depth ≤ n := by
  induction ms with
  | nil => simp [depthOfMembers]
  | cons m ms ih => rw [depthOfMembers, max_le_iff, ih, List.forall_mem_cons]

theorem Storable.depth_le {n : ℕ} {j : Json} (h : j.Storable n) : j.depth ≤ n := by
  induction h with
  | arr _ ih =>
    rw [depth]
    exact Nat.succ_le_succ (depthOfItems_le_iff.mpr ih)
  | obj _ _ ih =>
    rw [depth]
    exact Nat.succ_le_succ (depthOfMembers_le_iff.mpr ih)
  | _ => simp [depth]

theorem Storable.inRange {n : ℕ} {j : Json} (h : j.Storable n) : j.InRange := by
  induction h with
  | num hi => simpa [InRange] using hi
  | arr _ ih => exact inRange_arr.mpr ih
  | obj _ _ ih => exact inRange_obj.mpr ih
  | _ => simp [InRange]

theorem Storable.succ {n : ℕ} {j : Json} (h : j.Storable n) : j.Storable (n + 1) := by
  induction h with
  | null => exact .null
  | bool b => exact .bool b
  | num hi => exact .num hi
  | str s => exact .str s
  | arr _ ih => exact .arr ih
  | obj hnodup _ ih => exact .obj hnodup ih

theorem Storable.mono {m n : ℕ} (hmn : m ≤ n) {j : Json} (h : j.Storable m) : j.Storable n := by
  induction hmn with
  | refl => exact h
  | step _ ih => exact ih.succ

@[simp] theorem storable_bool (n : ℕ) (b : Bool) : (Json.bool b).Storable n := .bool b

@[simp] theorem storable_str (n : ℕ) (s : String) : (Json.str s).Storable n := .str s

@[simp] theorem storable_num_iff {n : ℕ} {i : Number} : (Json.num i).Storable n ↔ i.InRange := by
  refine ⟨fun h => ?_, .num⟩
  cases h with
  | num hi => exact hi

@[simp] theorem storable_arr_iff {n : ℕ} {xs : List Json} :
    (Json.arr xs).Storable (n + 1) ↔ ∀ x ∈ xs, x.Storable n := by
  refine ⟨fun h => ?_, .arr⟩
  cases h with
  | arr hall => exact hall

@[simp] theorem storable_obj_iff {n : ℕ} {ms : List (String × Json)} :
    (Json.obj ms).Storable (n + 1) ↔ (ms.map (·.1)).Nodup ∧ ∀ m ∈ ms, m.2.Storable n := by
  refine ⟨fun h => ?_, fun h => .obj h.1 h.2⟩
  cases h with
  | obj hnodup hall => exact ⟨hnodup, hall⟩

theorem inRange_natural {n : ℕ} (h : n < UInt64.size) : (Number.int n).InRange := by
  constructor <;> omega

theorem inRange_uint32 (n : UInt32) : (Number.int n.toNat).InRange := by
  have : UInt32.size < UInt64.size := by decide
  exact inRange_natural (by have := n.toNat_lt_size; omega)

theorem inRange_uint64 (n : UInt64) : (Number.int n.toNat).InRange :=
  inRange_natural n.toNat_lt_size

/-! ## Drafts -/

/-- Every number of a draft that can be read is one that a text can hold. -/
inductive Draft.InRange : Draft → Prop
  | null : InRange .null
  | bool (b : Bool) : InRange (.bool b)
  | number {t : Token Number} : (∀ n, t.value = .ok n → n.InRange) → InRange (.number t)
  | string (t : Token String) : InRange (.string t)
  | array {ds : List Draft} (close : Except Flaw Unit) : (∀ d ∈ ds, InRange d) →
      InRange (.array ds close)
  | object {ms : List (Token String × Draft)} (close : Except Flaw Unit) :
      (∀ m ∈ ms, InRange m.2) → InRange (.object ms close)
  | misspelt (f : Flaw) : InRange (.misspelt f)
  | absent (f : Flaw) : InRange (.absent f)

/-- An array is read item by item, one level further down. -/
theorem exists_items_of_toJson {depth : ℕ} {ds : List Draft} {close : Except Flaw Unit} {j : Json}
    (h : Draft.toJson depth (.array ds close) = .ok j) :
    ∃ n xs, depth = n + 1 ∧ Draft.toJsonItems n ds = .ok xs ∧ j = .arr xs := by
  cases depth with
  | zero => cases h
  | succ n =>
    rw [Draft.toJson] at h
    obtain ⟨xs, hxs, h⟩ := bind_eq_ok_iff.mp h
    obtain ⟨-, -, h⟩ := bind_eq_ok_iff.mp h
    cases h
    exact ⟨n, xs, rfl, hxs, rfl⟩

/-- An object is read member by member, one level further down. -/
theorem exists_members_of_toJson {depth : ℕ} {ds : List (Token String × Draft)}
    {close : Except Flaw Unit} {j : Json} (h : Draft.toJson depth (.object ds close) = .ok j) :
    ∃ n ms, depth = n + 1 ∧ Draft.toJsonMembers n [] ds = .ok ms ∧ j = .obj ms := by
  cases depth with
  | zero => cases h
  | succ n =>
    rw [Draft.toJson] at h
    obtain ⟨ms, hms, h⟩ := bind_eq_ok_iff.mp h
    obtain ⟨-, -, h⟩ := bind_eq_ok_iff.mp h
    cases h
    exact ⟨n, ms, rfl, hms, rfl⟩

theorem toJsonItems_eq_ok_iff {depth : ℕ} {ds : List Draft} {xs : List Json} :
    Draft.toJsonItems depth ds = .ok xs ↔
      List.Forall₂ (fun d x => Draft.toJson depth d = .ok x) ds xs := by
  have hmap : Draft.toJsonItems depth ds = ds.mapM (Draft.toJson depth) := by
    induction ds with
    | nil => rfl
    | cons d ds ih => rw [Draft.toJsonItems, List.mapM_cons, ih]
  rw [hmap, mapM_eq_ok_iff]

/-- Members are read one by one, and each is added to those before it. -/
theorem toJsonMembers_eq_ok_iff {depth : ℕ} {ds : List (Token String × Draft)}
    {before ms : List (String × Json)} :
    Draft.toJsonMembers depth before ds = .ok ms ↔ ∃ read : List (String × Json),
      List.Forall₂ (fun d m => d.1.value = .ok m.1 ∧ Draft.toJson depth d.2 = .ok m.2) ds read ∧
        ms = read.foldl (fun acc m => insertSorted m.1 m.2 acc) before := by
  induction ds generalizing before with
  | nil => simp [Draft.toJsonMembers, eq_comm]
  | cons d ds ih =>
    obtain ⟨t, d⟩ := d
    simp only [Draft.toJsonMembers, bind_eq_ok_iff, ih, List.forall₂_cons_left_iff]
    constructor
    · rintro ⟨k, hk, v, hv, read, hread, rfl⟩
      exact ⟨_, ⟨(k, v), read, ⟨hk, hv⟩, hread, rfl⟩, rfl⟩
    · rintro ⟨_, ⟨m, read, ⟨hk, hv⟩, hread, rfl⟩, rfl⟩
      exact ⟨m.1, hk, m.2, hv, read, hread, rfl⟩

theorem mem_insertSorted {α : Type} {key : String} {value : α} {ms : List (String × α)}
    {m : String × α} (h : m ∈ insertSorted key value ms) : m = (key, value) ∨ m ∈ ms := by
  induction ms with
  | nil => simpa [insertSorted] using h
  | cons e rest ih =>
    obtain ⟨k, v⟩ := e
    simp only [insertSorted] at h
    split_ifs at h
    · exact (List.mem_cons.mp h).imp_right (List.mem_cons_of_mem _)
    · exact List.mem_cons.mp h
    · rcases List.mem_cons.mp h with rfl | h
      · exact .inr List.mem_cons_self
      · exact (ih h).imp_right (List.mem_cons_of_mem _)

/-- Every member of an object that was read is one that stood there before or one of the drafts. -/
theorem mem_of_toJsonMembers {depth : ℕ} {ds : List (Token String × Draft)}
    {before ms : List (String × Json)} (h : Draft.toJsonMembers depth before ds = .ok ms)
    {m : String × Json} (hm : m ∈ ms) :
    m ∈ before ∨ ∃ d ∈ ds, Draft.toJson depth d.2 = .ok m.2 := by
  obtain ⟨read, hread, rfl⟩ := toJsonMembers_eq_ok_iff.mp h
  refine List.foldlRecOn (motive := fun acc => ∀ m ∈ acc, m ∈ before ∨
    ∃ d ∈ ds, Draft.toJson depth d.2 = .ok m.2) read _ (fun m hm => .inl hm) ?_ m hm
  intro acc hacc added hadded m hm
  rcases mem_insertSorted hm with rfl | hm
  · obtain ⟨d, hd, -, hr⟩ := exists_of_forall₂ hread hadded
    exact .inr ⟨d, hd, hr⟩
  · exact hacc m hm

theorem sorted_insertSorted {α : Type} {key : String} {value : α} {ms : List (String × α)}
    (h : ms.Pairwise fun m m' => m.1 < m'.1) :
    (insertSorted key value ms).Pairwise fun m m' => m.1 < m'.1 := by
  induction ms with
  | nil => exact List.pairwise_singleton _ _
  | cons e rest ih =>
    obtain ⟨k, v⟩ := e
    rw [List.pairwise_cons] at h
    rw [insertSorted]
    split_ifs with heq hlt
    · subst heq
      exact .cons h.1 h.2
    · refine .cons ?_ (.cons h.1 h.2)
      rw [List.forall_mem_cons]
      exact ⟨hlt, fun m hm => hlt.trans (h.1 m hm)⟩
    · refine .cons ?_ (ih h.2)
      intro m hm
      rcases mem_insertSorted hm with rfl | hm
      · exact lt_of_le_of_ne (not_lt.mp hlt) (Ne.symm heq)
      · exact h.1 m hm

/-- The members of an object that was read are sorted by key. -/
theorem sorted_toJsonMembers {depth : ℕ} {ds : List (Token String × Draft)}
    {before ms : List (String × Json)} (h : Draft.toJsonMembers depth before ds = .ok ms)
    (hbefore : before.Pairwise fun m m' => m.1 < m'.1) :
    ms.Pairwise fun m m' => m.1 < m'.1 := by
  obtain ⟨read, -, rfl⟩ := toJsonMembers_eq_ok_iff.mp h
  exact List.foldlRecOn read _ hbefore fun _ hacc _ _ => sorted_insertSorted hacc

/-- A value that was read from a draft can be stored. -/
theorem storable_of_toJson {n : ℕ} {d : Draft} (h : d.InRange) {j : Json}
    (hj : Draft.toJson n d = .ok j) : j.Storable n := by
  induction h generalizing n j with
  | null =>
    cases hj
    exact .null
  | bool b =>
    cases hj
    exact .bool b
  | number ht =>
    obtain ⟨i, hi, rfl⟩ := map_eq_ok_iff.mp hj
    exact .num (ht i hi)
  | string t =>
    obtain ⟨s, -, rfl⟩ := map_eq_ok_iff.mp hj
    exact .str s
  | array close _ ih =>
    obtain ⟨n, xs, rfl, hxs, rfl⟩ := exists_items_of_toJson hj
    refine .arr fun x hx => ?_
    obtain ⟨d, hd, hr⟩ := exists_of_forall₂ (toJsonItems_eq_ok_iff.mp hxs) hx
    exact ih d hd hr
  | object close _ ih =>
    obtain ⟨n, ms, rfl, hms, rfl⟩ := exists_members_of_toJson hj
    refine .obj ?_ fun m hm => ?_
    · have hsorted := sorted_toJsonMembers hms .nil
      exact (List.pairwise_map.mpr hsorted).imp fun hlt => hlt.ne
    · rcases mem_of_toJsonMembers hms hm with hb | ⟨d, hd, hr⟩
      · simp at hb
      · exact ih d hd hr
  | misspelt f => cases hj
  | absent f => cases hj

/-! ## Texts -/

namespace Reader

theorem Lexeme.inRange_of_value {l : Lexeme} {n : Number} (h : l.value = .ok n) : n.InRange := by
  unfold value at h
  dsimp only at h
  split at h
  · split_ifs at h with hneg hfit hfinite hlt hfinite
    · cases h
      simp only [Number.InRange]
      have : (0 : ℤ) < UInt64.size := by decide
      omega
    · cases h
      exact hfinite
    · cases h
      simp only [Number.InRange]
      omega
    · cases h
      exact hfinite
  · split_ifs at h with hfinite
    cases h
    exact hfinite

/-- What a token says, if it says anything, is a number that a text can hold. -/
def Sound (t : Token Number × Rest) : Prop := ∀ n, t.1.value = .ok n → n.InRange

theorem sound_broken (cs : List Char) : Sound (brokenNumber cs) := by
  intro n hn
  cases hn

theorem sound_complete (l : Lexeme) (rest : List Char) : Sound (completeNumber l rest) :=
  fun _ hn => l.inRange_of_value hn

theorem sound_exponentPart (l : Lexeme) (cs : List Char) : Sound (exponentPart l cs) := by
  unfold exponentPart
  split
  · exact sound_complete _ _
  · dsimp only
    split_ifs
    · exact sound_broken _
    · exact sound_complete _ _
    · exact sound_complete _ _

theorem sound_fractionPart (l : Lexeme) (cs : List Char) : Sound (fractionPart l cs) := by
  unfold fractionPart
  split
  · dsimp only
    split_ifs
    · exact sound_broken _
    · exact sound_exponentPart _ _
  · exact sound_exponentPart _ _

theorem sound_unsignedNumber (negative : Bool) (cs : List Char) :
    Sound (unsignedNumber negative cs) := by
  unfold unsignedNumber
  dsimp only
  split
  · exact sound_broken _
  · intro n hn
    cases hn
  · exact sound_fractionPart _ _

theorem inRange_word (expected : List Char) {d : Draft} (hd : d.InRange) (cs : List Char) :
    (word expected d cs).1.InRange := by
  induction expected generalizing cs with
  | nil =>
    rw [word]
    exact hd
  | cons e expected ih =>
    cases cs with
    | nil =>
      rw [word]
      exact .misspelt _
    | cons c cs =>
      rw [word]
      split_ifs
      · exact ih cs
      · exact .misspelt _

/-- What the reader gives with some fuel, at whatever level it is called. -/
structure InRange (fuel : ℕ) : Prop where
  value : ∀ cs, (Reader.value fuel cs).1.InRange
  items : ∀ cs, ∀ d ∈ (Reader.items fuel cs).1, d.InRange
  members : ∀ cs, ∀ m ∈ (Reader.members fuel cs).1, m.2.InRange
  member : ∀ cs, (Reader.member fuel cs).1.2.InRange

section Step

variable {fuel : ℕ} (h : InRange fuel) (cs : List Char)

include h

theorem InRange.value_succ : (Reader.value (fuel + 1) cs).1.InRange := by
  rw [Reader.value]
  split
  · exact .absent _
  case h_2 c rest _ =>
    split_ifs
    · exact inRange_word _ .null _
    · exact inRange_word _ (.bool true) _
    · exact inRange_word _ (.bool false) _
    · exact .string _
    · exact .number (sound_unsignedNumber true rest)
    · exact .number (sound_unsignedNumber false (c :: rest))
    · split
      · exact .array _ (by simp)
      · exact .array _ (by simp)
      · exact .array _ (h.items _)
    · split
      · exact .object _ (by simp)
      · exact .object _ (by simp)
      · exact .object _ (h.members _)
    · exact .absent _

theorem InRange.items_succ : ∀ d ∈ (Reader.items (fuel + 1) cs).1, d.InRange := by
  rw [Reader.items]
  dsimp only
  split
  · simpa using h.value cs
  · split
    · simpa using h.value cs
    · split_ifs
      · simpa using h.value cs
      · exact List.forall_mem_cons.mpr ⟨h.value cs, h.items _⟩
      · simpa using h.value cs

theorem InRange.members_succ : ∀ m ∈ (Reader.members (fuel + 1) cs).1, m.2.InRange := by
  rw [Reader.members]
  dsimp only
  split
  · simpa using h.member cs
  · split
    · simpa using h.member cs
    · split_ifs
      · simpa using h.member cs
      · exact List.forall_mem_cons.mpr ⟨h.member cs, h.members _⟩
      · simpa using h.member cs

theorem InRange.member_succ : (Reader.member (fuel + 1) cs).1.2.InRange := by
  rw [Reader.member]
  dsimp only
  split
  · exact .absent _
  · split_ifs
    · split
      · exact .absent _
      · split
        · exact .absent _
        · split_ifs
          · exact h.value _
          · exact .absent _
    · exact .absent _

end Step

theorem inRange (fuel : ℕ) : InRange fuel := by
  induction fuel with
  | zero =>
    constructor
    case value =>
      intro cs
      rw [Reader.value]
      exact .absent _
    case items =>
      intro cs
      rw [Reader.items]
      simp
    case members =>
      intro cs
      rw [Reader.members]
      simp
    case member =>
      intro cs
      rw [Reader.member]
      exact .absent _
  | succ fuel ih => exact ⟨ih.value_succ, ih.items_succ, ih.members_succ, ih.member_succ⟩

end Reader

theorem readWith_eq_ok {α : Type} {reader : Draft → Except Flaw α} {text : String} {a : α}
    (h : readWith reader text = .ok a) : ∃ d, d.InRange ∧ reader d = .ok a := by
  rw [readWith] at h
  dsimp only at h
  obtain ⟨b, hb, h⟩ := bind_eq_ok_iff.mp h
  obtain ⟨rest, -, h⟩ := bind_eq_ok_iff.mp h
  split_ifs at h
  cases h
  exact ⟨_, (Reader.inRange _).value _, hb⟩

/-- What one reader makes of texts follows from what another makes of them if it does for drafts. -/
theorem toOption_readWith {α β : Type} {reader : Draft → Except Flaw α}
    {reader' : Draft → Except Flaw β} {f : α → Option β}
    (h : ∀ d, (reader' d).toOption = (reader d).toOption.bind f) (text : String) :
    (readWith reader' text).toOption = (readWith reader text).toOption.bind f := by
  simp only [readWith, toOption_bind, h, Option.bind_assoc]
  refine congrArg _ (funext fun a => ?_)
  cases (Draft.ofText text).2 with
  | error flaw => cases f a <;> rfl
  | ok rest => by_cases hblank : skipBlanks rest = [] <;> simp [hblank]

/-- A value that a text writes can be stored. -/
theorem storable_of_ofText {text : String} {j : Json} (h : ofText text = .ok j) :
    j.Storable Draft.depthLimit := by
  obtain ⟨d, hd, hj⟩ := readWith_eq_ok h
  exact storable_of_toJson hd hj

/-! ## Parts -/

/-- A part of a draft is an item of an array or the value of a member. -/
inductive Draft.Child (d : Draft) : Draft → Prop
  | item {ds : List Draft} {close : Except Flaw Unit} : d ∈ ds → Child d (.array ds close)
  | member {ms : List (Token String × Draft)} {close : Except Flaw Unit} (t : Token String) :
      (t, d) ∈ ms → Child d (.object ms close)

theorem Draft.InRange.child {d d' : Draft} (h : d.InRange) (hd : d'.Child d) : d'.InRange := by
  cases hd with
  | item hm =>
    cases h with
    | array _ hall => exact hall d' hm
  | member t hm =>
    cases h with
    | object _ hall => exact hall _ hm

theorem toDraftItems_eq_map (xs : List Json) : toDraftItems xs = xs.map toDraft := by
  induction xs with
  | nil => rfl
  | cons x xs ih => rw [toDraftItems, ih, List.map_cons]

theorem toDraftMembers_eq_map (ms : List (String × Json)) :
    toDraftMembers ms = ms.map fun m => (.sound m.1, m.2.toDraft) := by
  induction ms with
  | nil => rfl
  | cons m ms ih => rw [toDraftMembers, ih, List.map_cons]

/-- The parts of a value's draft are drafts of parts of the value. -/
theorem exists_of_child_toDraft {j : Json} {d : Draft} (hd : d.Child j.toDraft) :
    (∃ xs, j = .arr xs ∧ ∃ x ∈ xs, d = x.toDraft) ∨
      ∃ ms, j = .obj ms ∧ ∃ m ∈ ms, d = m.2.toDraft := by
  cases j with
  | arr xs =>
    rw [toDraft, toDraftItems_eq_map] at hd
    cases hd with
    | item hm =>
      obtain ⟨x, hx, rfl⟩ := List.mem_map.mp hm
      exact .inl ⟨xs, rfl, x, hx, rfl⟩
  | obj ms =>
    rw [toDraft, toDraftMembers_eq_map] at hd
    cases hd with
    | member t hm =>
      obtain ⟨m, hm', heq⟩ := List.mem_map.mp hm
      cases heq
      exact .inr ⟨ms, rfl, m, hm', rfl⟩
  | _ => cases hd

theorem Storable.child {n : ℕ} {j : Json} (h : j.Storable n) {d : Draft}
    (hd : d.Child j.toDraft) : ∃ (k : ℕ) (v : Json), n = k + 1 ∧ d = v.toDraft ∧ v.Storable k := by
  rcases exists_of_child_toDraft hd with ⟨xs, rfl, x, hx, rfl⟩ | ⟨ms, rfl, m, hm, rfl⟩
  · cases h with
    | @arr k _ hall => exact ⟨k, x, rfl, rfl, hall x hx⟩
  · cases h with
    | @obj k _ _ hall => exact ⟨k, m.2, rfl, rfl, hall m hm⟩

theorem Storable.inRange_toDraft {n : ℕ} {j : Json} (h : j.Storable n) : j.toDraft.InRange := by
  induction h with
  | null => exact .null
  | bool b => exact .bool b
  | @num _ i hi =>
    refine .number fun n hn => ?_
    cases hn
    exact hi
  | str s => exact .string _
  | arr _ ih =>
    rw [toDraft, toDraftItems_eq_map]
    refine .array _ fun d hd => ?_
    obtain ⟨x, hx, rfl⟩ := List.mem_map.mp hd
    exact ih x hx
  | obj _ _ ih =>
    rw [toDraft, toDraftMembers_eq_map]
    refine .object _ fun m hm => ?_
    obtain ⟨m', hm', rfl⟩ := List.mem_map.mp hm
    exact ih m' hm'

end Verdict.Json
