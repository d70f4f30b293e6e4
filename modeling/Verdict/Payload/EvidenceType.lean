import Verdict.Json.Decoding
import Verdict.Table

/-!
# Evidence types

An evidence type declares the fields that evidence may carry.
-/

namespace Verdict

/-- What a field of evidence may hold. -/
inductive ValueType where
  | boolean
  | integer
  | decimal
  | string
  | duration
  deriving DecidableEq, Repr, Inhabited

namespace ValueType

def all : List ValueType := [boolean, integer, decimal, string, duration]

def name : ValueType → String
  | boolean => "BOOLEAN"
  | integer => "INTEGER"
  | decimal => "DECIMAL"
  | string => "STRING"
  | duration => "DURATION"

def ofName? (s : String) : Option ValueType := all.find? fun t => t.name = s

def alternatives : List (String × ValueType) := all.map fun t => (t.name, t)

end ValueType

/-- One declared field. -/
structure EvidenceField where
  name : String
  valueType : ValueType
  required : Bool
  deriving DecidableEq, Repr, Inhabited

/-- The declared fields, in the order of declaration. -/
structure EvidenceType where
  fields : Table String EvidenceField
  deriving DecidableEq, Repr, Inhabited

namespace EvidenceField

def toJson (f : EvidenceField) : Json :=
  .obj [("name", .str f.name), ("valueType", .str f.valueType.name), ("required", .bool f.required)]

def ofDraft (d : Json.Draft) : Except Json.Flaw EvidenceField := do
  let valueType := Json.Draft.choice ValueType.alternatives
  let fields ← d.record [.required "name" Json.Draft.text, .required "valueType" valueType,
    .required "required" Json.Draft.flag]
  return ⟨← fields.get "name" Json.Draft.text, ← fields.get "valueType" valueType,
    ← fields.get "required" Json.Draft.flag⟩

end EvidenceField

namespace EvidenceType

def field? (t : EvidenceType) (name : String) : Option EvidenceField := t.fields.find? name

/-- The names of the required fields, in the order of declaration. -/
def requiredNames (t : EvidenceType) : List String :=
  (t.fields.values.filter (·.required)).map (·.name)

def toJson (t : EvidenceType) : Json :=
  .obj [("fields", .obj (t.fields.entries.map fun e => (e.1, e.2.toJson)))]

/-- Reads the declared fields by key, in the order of the members. -/
def fieldsOfDraft : Json.Draft → Except Json.Flaw (Table String EvidenceField)
  | .object members close => do
    let entries ← members.mapM fun (t, d) => do
      return (← t.value, ← EvidenceField.ofDraft d)
    close
    return Table.ofList entries
  | d => d.refuse

def ofDraft (d : Json.Draft) : Except Json.Flaw EvidenceType := do
  let fields ← d.record [.required "fields" fieldsOfDraft]
  return ⟨← fields.get "fields" fieldsOfDraft⟩

end EvidenceType
end Verdict
