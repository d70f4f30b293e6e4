import Verdict.Json.Draft

/-!
# Reading typed values from drafts

A typed reader accepts the drafts of one shape and reports the first flaw in the order of the text:
a value of the wrong shape is `mismatched` where it starts, and what follows it is never looked at.

A record is an object with the record's fields in any order, unknown members skipped and known ones
at most once, or an array of exactly its fields in declaration order. A choice is the string with
its name, or an object whose only member has that name and the value null.
-/

namespace Verdict.Json.Draft

/-- The flaw of a draft where a value of another shape is asked for: a scalar is read first, so a
flaw inside it wins. -/
def refuse {α : Type} : Draft → Except Flaw α
  | .number t => t.value.bind fun _ => .error .mismatched
  | .string t => t.value.bind fun _ => .error .mismatched
  | .misspelt f => .error f
  | .absent f => .error f
  | .null => .error .mismatched
  | .bool _ => .error .mismatched
  | .array _ _ => .error .mismatched
  | .object _ _ => .error .mismatched

def text : Draft → Except Flaw String
  | .string t => t.value
  | d => d.refuse

def flag : Draft → Except Flaw Bool
  | .bool b => .ok b
  | d => d.refuse

/-- A whole number from zero up to but not including `bound`. -/
def natural (bound : Nat) : Draft → Except Flaw Nat
  | .number t => do
    match ← t.value with
    | .int i => if 0 ≤ i ∧ i < bound then return i.toNat else throw .mismatched
    | .decimal _ => throw .mismatched
  | d => d.refuse

def uint32 (d : Draft) : Except Flaw UInt32 := (d.natural UInt32.size).map UInt32.ofNat

def uint64 (d : Draft) : Except Flaw UInt64 := (d.natural UInt64.size).map UInt64.ofNat

/-- An array whose items are all read by `item`. -/
def list {α : Type} (item : Draft → Except Flaw α) : Draft → Except Flaw (List α)
  | .array items close => do
    let xs ← items.mapM item
    close
    return xs
  | d => d.refuse

/-- The value with a name among the alternatives. -/
def named {α : Type} (alternatives : List (String × α)) (name : String) : Except Flaw α :=
  match alternatives.lookup name with
  | some a => .ok a
  | none => .error .mismatched

/-- One of the alternatives, by name. -/
def choice {α : Type} (alternatives : List (String × α)) : Draft → Except Flaw α
  | .string t => t.value.bind (named alternatives)
  | .object [] close => close.bind fun _ => .error .malformed
  | .object ((t, d) :: more) close => do
    let a ← t.value.bind (named alternatives)
    match d with
    | .null => pure ()
    | d => d.refuse
    match more with
    | [] => close
    | _ :: _ => throw .malformed
    return a
  | .absent f => .error f
  | _ => .error .malformed

/-- A field of a record: its name, what it accepts, and whether it may be left out. -/
structure Field where
  name : String
  check : Draft → Except Flaw Unit
  optional : Bool

/-- A field that has to be there and is read by `reader`. -/
def Field.required {α : Type} (name : String) (reader : Draft → Except Flaw α) : Field :=
  ⟨name, fun d => (reader d).map fun _ => (), false⟩

/-- A field that may be left out and is otherwise read by `reader`. -/
def Field.defaulted {α : Type} (name : String) (reader : Draft → Except Flaw α) : Field :=
  ⟨name, fun d => (reader d).map fun _ => (), true⟩

/-- The drafts of a record's fields, by name. -/
abbrev Fields := List (String × Draft)

/-- Checks the members of an object in the order written. -/
def recordMembers (fields : List Field) (seen : Fields) :
    List (Token String × Draft) → Except Flaw Fields
  | [] => .ok seen
  | (t, d) :: rest => do
    let key ← t.value
    match fields.find? fun f => f.name = key with
    | none =>
      d.skip
      recordMembers fields seen rest
    | some f =>
      if (seen.lookup key).isSome then throw .mismatched
      f.check d
      recordMembers fields ((key, d) :: seen) rest

/-- Checks the items of an array against the fields in declaration order. A further item is
malformed, not mismatched, because it is met where the bracket should be. -/
def recordItems (close : Except Flaw Unit) : List Field → List Draft → Except Flaw Fields
  | [], [] => close.map fun _ => []
  | [], _ :: _ => .error .malformed
  | f :: fs, [] => do
    close
    if f.optional then recordItems close fs [] else throw .mismatched
  | f :: fs, d :: ds => do
    f.check d
    return (f.name, d) :: (← recordItems close fs ds)

/-- The checked fields of a record. -/
def record (fields : List Field) : Draft → Except Flaw Fields
  | .object members close => do
    let seen ← recordMembers fields [] members
    close
    if fields.all fun f => f.optional || (seen.lookup f.name).isSome then return seen
    else throw .mismatched
  | .array items close => recordItems close fields items
  | d => d.refuse

/-- The value of a required field. -/
def Fields.get {α : Type} (fields : Fields) (name : String) (reader : Draft → Except Flaw α) :
    Except Flaw α :=
  match fields.lookup name with
  | some d => reader d
  | none => .error .mismatched

/-- The value of a field that may be left out. -/
def Fields.getD {α : Type} (fields : Fields) (name : String) (reader : Draft → Except Flaw α)
    (default : α) : Except Flaw α :=
  match fields.lookup name with
  | some d => reader d
  | none => .ok default

end Verdict.Json.Draft
