import Verdict.Decimal.Layout
import Verdict.Json.Decoding
import Verdict.Text.Quoted

/-!
# Scalars

The values that rules compare: a rule's literal and a field of evidence are both scalars. A number
is an integer if it is written as one and fits 64 signed bits, and a decimal otherwise.
-/

namespace Verdict

inductive Scalar where
  | boolean (value : Bool)
  | integer (value : Int)
  | decimal (value : Binary64)
  | text (value : String)
  deriving DecidableEq, Repr, Inhabited

namespace Scalar

/-- Whether an integer fits 64 signed bits. -/
def fitsInt64 (i : Int) : Bool := -Binary64.signBit ≤ i && i < Binary64.signBit

/-- The scalar that a JSON value is; null, arrays and objects are none. -/
def ofJson? : Json → Option Scalar
  | .bool b => some (.boolean b)
  | .num (.int i) => some (if fitsInt64 i then .integer i else .decimal (.ofInt i))
  | .num (.decimal d) => some (.decimal d)
  | .str s => some (.text s)
  | .null => none
  | .arr _ => none
  | .obj _ => none

def toJson : Scalar → Json
  | boolean b => .bool b
  | integer i => .num (.int i)
  | decimal d => .num (.decimal d)
  | text s => .str s

/-- Reads an integer that fits 64 signed bits. -/
def int64OfDraft (d : Json.Draft) : Except Json.Flaw Int :=
  match d with
  | .number t => do
    match ← t.value with
    | .int i => if fitsInt64 i then return i else throw .mismatched
    | .decimal _ => throw .mismatched
  | d => d.refuse

/-- Reads any number as the nearest binary64 number. -/
def binary64OfDraft (d : Json.Draft) : Except Json.Flaw Binary64 :=
  match d with
  | .number t => t.value.map Json.Number.toBinary64
  | d => d.refuse

/-- Reads a scalar by trying each kind in turn: boolean, integer, decimal, text. The whole value is
looked at before any kind is tried, so a flaw inside it comes first. -/
def ofDraft (depth : Nat) (d : Json.Draft) : Except Json.Flaw Scalar := do
  let _ ← d.toJson depth
  match d.flag with
  | .ok b => return boolean b
  | .error _ =>
  match int64OfDraft d with
  | .ok i => return integer i
  | .error _ =>
  match binary64OfDraft d with
  | .ok x => return decimal x
  | .error _ =>
  match d.text with
  | .ok s => return text s
  | .error _ => throw .mismatched

/-- The name of the kind of value. -/
def typeName : Scalar → String
  | boolean _ => "boolean"
  | integer _ => "integer"
  | decimal _ => "decimal"
  | text _ => "string"

/-- How a scalar is shown in messages. -/
def display : Scalar → String
  | boolean b => if b then "true" else "false"
  | integer i => toString i
  | decimal d => Decimal.plainText d
  | text s => Text.quoted s

/-- The value as a number, if it is one. -/
def toBinary64? : Scalar → Option Binary64
  | integer i => some (.ofInt i)
  | decimal d => some d
  | boolean _ => none
  | text _ => none

/-- Whether two scalars stand for the same value. Integers are compared exactly with integers and
by their nearest binary64 number with decimals; values of different kinds are otherwise unequal. -/
def sameValue : Scalar → Scalar → Bool
  | integer a, integer b => a = b
  | text a, text b => a = b
  | boolean a, boolean b => a = b
  | a, b =>
    match a.toBinary64?, b.toBinary64? with
    | some x, some y => x.equal y
    | _, _ => false

end Scalar
end Verdict
