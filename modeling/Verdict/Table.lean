/-!
# Tables

A finite map whose entries keep the order in which their keys were first inserted. Inserting a
present key replaces its value in place, and entries have positions at which they can be moved or
from which they are dropped; all of this keeps the order of the others. Where the order of keys
matters instead, `insertSorted` keeps a list of entries sorted by key.
-/

namespace Verdict

/-- Adds an entry to entries sorted by key, in the place of an equal key if there is one. -/
def insertSorted {α : Type} (key : String) (value : α) : List (String × α) → List (String × α)
  | [] => [(key, value)]
  | (k, v) :: rest =>
    if key = k then (key, value) :: rest
    else if key < k then (key, value) :: (k, v) :: rest
    else (k, v) :: insertSorted key value rest

/-- A finite map from keys to values. -/
structure Table (κ : Type) (α : Type) where
  entries : List (κ × α)
  deriving Repr, DecidableEq

namespace Table

variable {κ α : Type} [DecidableEq κ]

def empty : Table κ α := ⟨[]⟩

instance : Inhabited (Table κ α) := ⟨empty⟩

/-- The value of a key. -/
def find? (t : Table κ α) (key : κ) : Option α := t.entries.lookup key

def contains (t : Table κ α) (key : κ) : Bool := (t.find? key).isSome

theorem lookup_cons (k key : κ) (value : α) (rest : List (κ × α)) :
    ((key, value) :: rest).lookup k = if k = key then some value else rest.lookup k := by
  by_cases h : k = key
  · subst h
    rw [List.lookup_cons_self, if_pos rfl]
  · have hk : (k == key) = false := by simpa using h
    rw [List.lookup_cons, hk, if_neg h]

/-- Entries with the value of a key replaced, or the key added at the end. -/
def insertEntry (key : κ) (value : α) : List (κ × α) → List (κ × α)
  | [] => [(key, value)]
  | (k, v) :: rest =>
    if k = key then (k, value) :: rest else (k, v) :: insertEntry key value rest

theorem lookup_insertEntry (key k : κ) (value : α) (entries : List (κ × α)) :
    (insertEntry key value entries).lookup k =
      if k = key then some value else entries.lookup k := by
  induction entries with
  | nil => simp [insertEntry, lookup_cons]
  | cons e rest ih =>
    obtain ⟨k₀, v₀⟩ := e
    by_cases h : k₀ = key
    · by_cases hk : k = key <;> simp [insertEntry, lookup_cons, h, hk]
    · by_cases hk : k = k₀
      · simp [insertEntry, h, hk]
      · simp [insertEntry, lookup_cons, h, hk, ih]

def insert (t : Table κ α) (key : κ) (value : α) : Table κ α :=
  ⟨insertEntry key value t.entries⟩

@[simp] theorem find?_empty (k : κ) : (empty : Table κ α).find? k = none := rfl

/-- Inserting sets the value of its key and no other. -/
theorem find?_insert (t : Table κ α) (key k : κ) (value : α) :
    (t.insert key value).find? k = if k = key then some value else t.find? k :=
  lookup_insertEntry key k value t.entries

/-- The table with the last value given for every key. -/
def ofList (entries : List (κ × α)) : Table κ α :=
  entries.foldl (fun t e => t.insert e.1 e.2) empty

def keys (t : Table κ α) : List κ := t.entries.map (·.1)

theorem keys_insertEntry (key : κ) (value : α) (entries : List (κ × α)) :
    (insertEntry key value entries).map (·.1) =
      if key ∈ entries.map (·.1) then entries.map (·.1) else entries.map (·.1) ++ [key] := by
  induction entries with
  | nil => simp [insertEntry]
  | cons e rest ih =>
    obtain ⟨k₀, v₀⟩ := e
    by_cases h : k₀ = key
    · simp [insertEntry, h]
    · simp only [insertEntry, h, if_false, List.map_cons, ih, List.mem_cons, Ne.symm h, false_or]
      split <;> simp_all

/-- A present key keeps its place and a new one goes to the end. -/
theorem keys_insert (t : Table κ α) (key : κ) (value : α) :
    (t.insert key value).keys = if key ∈ t.keys then t.keys else t.keys ++ [key] :=
  keys_insertEntry key value t.entries

def values (t : Table κ α) : List α := t.entries.map (·.2)

def size (t : Table κ α) : Nat := t.entries.length

/-- The entries whose values pass a test. -/
def filter (keep : α → Bool) (t : Table κ α) : Table κ α :=
  ⟨t.entries.filter fun e => keep e.2⟩

/-- Takes a key out; the entries behind it move up. -/
def erase (t : Table κ α) (key : κ) : Table κ α := ⟨t.entries.eraseP fun e => e.1 = key⟩

/-- The position of a key. -/
def position? (t : Table κ α) (key : κ) : Option Nat := t.entries.findIdx? fun e => e.1 = key

/-- Moves the entry at one position to another, where both have to exist; those between shift. -/
def move? (t : Table κ α) (source target : Nat) : Option (Table κ α) :=
  if target < t.size then
    t.entries[source]?.map fun e => ⟨(t.entries.eraseIdx source).insertIdx target e⟩
  else none

/-- Drops first entries as long as there are more than a number of them. -/
def dropExcess (capacity : Nat) : List (κ × α) → List (κ × α)
  | [] => []
  | e :: rest => if capacity < (e :: rest).length then dropExcess capacity rest else e :: rest

/-- The table cut down to its last entries, as many as there is room for. -/
def shrink (t : Table κ α) (capacity : Nat) : Table κ α := ⟨dropExcess capacity t.entries⟩

/-- Whether two tables hold the same entries, in whatever order. -/
def sameEntries [DecidableEq α] (s t : Table κ α) : Bool :=
  s.size = t.size && s.entries.all fun e => t.find? e.1 = some e.2

end Table
end Verdict
