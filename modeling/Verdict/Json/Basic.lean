import Verdict.Binary64.Rounding

/-!
# JSON values

A value as the rest of the library sees it. Objects are lists of members: reading a text sorts them
by key and keeps the last of equal keys, while a value built to be written keeps the order it was
given.
-/

namespace Verdict

namespace Json

/-- Why a text could not be read as what was asked for. -/
inductive Flaw where
  /-- The text ends too early. -/
  | truncated
  /-- The text is not JSON. -/
  | malformed
  /-- The text is JSON of another shape. -/
  | mismatched
  deriving DecidableEq, Repr

/-- What is wrong with a text that cannot be read. -/
def Flaw.message : Flaw → String
  | truncated => "unexpected end of text"
  | malformed => "not JSON"
  | mismatched => "unexpected shape"

/-- A number: whole if it is written without point and exponent and fits 64 bits. -/
inductive Number where
  | int (value : Int)
  | decimal (value : Binary64)
  deriving DecidableEq, Repr

/-- The binary64 number nearest to a number. -/
def Number.toBinary64 : Number → Binary64
  | .int i => .ofInt i
  | .decimal d => d

end Json

/-- A JSON value. -/
inductive Json where
  | null
  | bool (value : Bool)
  | num (value : Json.Number)
  | str (value : String)
  | arr (items : List Json)
  | obj (members : List (String × Json))
  deriving Repr, Inhabited

namespace Json

/-- The value of the first member with a key. -/
def lookup (key : String) : List (String × Json) → Option Json
  | [] => none
  | (k, v) :: rest => if k = key then some v else lookup key rest

/-- The member of an object; nothing for other values. -/
def get? (j : Json) (key : String) : Option Json :=
  match j with
  | obj ms => lookup key ms
  | _ => none

def asString? : Json → Option String
  | str s => some s
  | _ => none

def asArray? : Json → Option (List Json)
  | arr xs => some xs
  | _ => none

def asObject? : Json → Option (List (String × Json))
  | obj ms => some ms
  | _ => none

def asBool? : Json → Option Bool
  | bool b => some b
  | _ => none

/-- A whole number that is not negative. -/
def asNat? : Json → Option Nat
  | num (.int i) => if 0 ≤ i then some i.toNat else none
  | _ => none

end Json
end Verdict
