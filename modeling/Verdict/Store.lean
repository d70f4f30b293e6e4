import Verdict.Archive.Loading

/-!
# Stores

A bounded store of loaded archives. Entries are kept in the order of their last access, and the one
accessed longest ago goes first when there are too many. Entries left alone for too long are dropped
by the next operation that registers or looks up. Times are nanoseconds on a clock that never goes
back.
-/

namespace Verdict

/-- The bounds of a store. -/
structure StoreConfig where
  /-- How many archives are kept at most. -/
  maxEntries : Nat
  /-- How long an archive may be left alone, in nanoseconds. -/
  timeToIdle : Nat
  deriving DecidableEq, Repr, Inhabited

/-- Why a store refuses an operation. -/
inductive StoreError where
  | noCapacity
  | noIdleTime
  | notLoaded (name : VersionedId)
  | load (cause : LoadError)
  deriving DecidableEq, Repr

def StoreError.message : StoreError → String
  | noCapacity => "invalid configuration: max_entries must be positive"
  | noIdleTime => "invalid configuration: time_to_idle must be positive"
  | notLoaded name => "DAR not loaded: " ++ name.text
  | load cause => cause.message

namespace StoreConfig

/-- Ten thousand archives, each for half an hour. -/
def default : StoreConfig := ⟨10000, 30 * 60 * 1000000000⟩

/-- Both bounds have to be positive. -/
def fault? (c : StoreConfig) : Option StoreError :=
  if c.maxEntries = 0 then some .noCapacity
  else if c.timeToIdle = 0 then some .noIdleTime
  else none

end StoreConfig

/-- An archive in a store. -/
structure StoreEntry where
  archive : LoadedArchive
  lastAccess : Nat
  deriving Inhabited

/-- Archives under their names, least recently accessed first. -/
structure Store where
  config : StoreConfig
  entries : Table VersionedId StoreEntry
  deriving Inhabited

/-- What can be wrong with a position. -/
inductive PositionFault where
  /-- Without entries there is no last position. -/
  | noLast
  /-- A move starts or ends where there is no entry. -/
  | outside
  /-- There is no entry where one was moved to. -/
  | lost
  deriving DecidableEq, Repr

namespace Store

/-- An empty store. -/
def new (config : StoreConfig) : Except StoreError Store :=
  match config.fault? with
  | some e => .error e
  | none => .ok ⟨config, Table.empty⟩

def size (s : Store) : Nat := s.entries.size

/-- The entries that have not been left alone for too long. -/
def fresh (s : Store) (now : Nat) : Table VersionedId StoreEntry :=
  s.entries.filter fun e => now - e.lastAccess < s.config.timeToIdle

/-- Puts an archive into the store, in the place of one of the same name. -/
def register (s : Store) (name : VersionedId) (archive : LoadedArchive) (now : Nat) : Store :=
  let entries := ((s.fresh now).erase name).insert name ⟨archive, now⟩
  { s with entries := entries.shrink s.config.maxEntries }

/-- Moves the entry at a position to the end and notes the access. -/
def touch (entries : Table VersionedId StoreEntry) (position now : Nat) :
    Except PositionFault (Table VersionedId StoreEntry × LoadedArchive) :=
  match entries.size with
  | 0 => .error .noLast
  | last + 1 =>
    match entries.move? position last with
    | none => .error .outside
    | some moved =>
      match moved.entries[last]? with
      | none => .error .lost
      | some (name, e) =>
        .ok (⟨moved.entries.set last (name, { e with lastAccess := now })⟩, e.archive)

/-- Looks an archive up; a hit counts as an access. -/
def get (s : Store) (name : VersionedId) (now : Nat) :
    Store × Except StoreError LoadedArchive :=
  let entries := s.fresh now
  let missed : Store × Except StoreError LoadedArchive :=
    ({ s with entries }, .error (.notLoaded name))
  match entries.position? name with
  | none => missed
  | some position =>
    match touch entries position now with
    | .ok (entries, archive) => ({ s with entries }, .ok archive)
    | .error _ => missed

/-- Takes an archive out of the store; whether it was there. -/
def unload (s : Store) (name : VersionedId) : Store × Bool :=
  ({ s with entries := s.entries.erase name }, s.entries.contains name)

/-- Loads the archive at a path and registers it. The store stays as it is if that fails. -/
def load (s : Store) (name : VersionedId) (tree : FileTree) (path : String) (now : Nat) :
    Store × Except StoreError LoadedArchive :=
  match LoadedArchive.load tree path with
  | .error e => (s, .error (.load e))
  | .ok archive => (s.register name archive now, .ok archive)

end Store
end Verdict
