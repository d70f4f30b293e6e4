import Verdict.Artifact.Reference

/-!
# Ruleset expressions

A ruleset is a tree whose leaves refer to rules and whose inner nodes join their operands with AND
or OR.

In JSON a node is an object with a member `node` that says which of the two it is, or an array whose
first item says so and whose other items are the node's fields in order. Inside a tree the tag may
also be the number of the alternative, and the operator may be an object whose only member is its
name with null or an empty object; at the root the tag has to be a string.
-/

namespace Verdict

/-- How a node joins its operands. -/
inductive Connective where
  | and
  | or
  deriving DecidableEq, Repr, Inhabited

namespace Connective

def name : Connective → String
  | and => "AND"
  | or => "OR"

def ofName? (s : String) : Option Connective :=
  if s = "AND" then some and else if s = "OR" then some or else none

end Connective

inductive Expression where
  | ruleRef (rule : VersionedId)
  | logical (operator : Connective) (operands : List Expression)
  deriving Repr, Inhabited

namespace Expression

mutual
/-- Whether two trees are equal. -/
def decideEq : (a b : Expression) → Decidable (a = b)
  | ruleRef r, ruleRef s => decidable_of_iff (r = s) (by simp)
  | ruleRef _, logical _ _ => isFalse (by simp)
  | logical _ _, ruleRef _ => isFalse (by simp)
  | logical o as, logical p bs =>
    have := decideEqAll as bs
    decidable_of_iff (o = p ∧ as = bs) (by simp)

def decideEqAll : (as bs : List Expression) → Decidable (as = bs)
  | [], [] => isTrue rfl
  | [], _ :: _ => isFalse (by simp)
  | _ :: _, [] => isFalse (by simp)
  | a :: as, b :: bs =>
    have := decideEq a b
    have := decideEqAll as bs
    decidable_of_iff (a = b ∧ as = bs) (by simp)
end

instance : DecidableEq Expression := decideEq

end Expression

/-- A ruleset is decided by the root of one expression. -/
structure Ruleset where
  root : Expression
  deriving DecidableEq, Repr, Inhabited

namespace Expression

/-! ## References -/

mutual
/-- The rules at the leaves, from left to right, with repetitions. -/
def leaves : Expression → List VersionedId
  | ruleRef r => [r]
  | logical _ operands => leavesOfAll operands

def leavesOfAll : List Expression → List VersionedId
  | [] => []
  | e :: es => leaves e ++ leavesOfAll es
end

/-- Adds a reference behind those seen, unless it is among them. -/
def addRef (seen : List VersionedId) (r : VersionedId) : List VersionedId :=
  if r ∈ seen then seen else seen ++ [r]

mutual
/-- Adds the rules of a tree to those seen, depth first. -/
def collectRefs (seen : List VersionedId) : Expression → List VersionedId
  | ruleRef r => addRef seen r
  | logical _ operands => collectRefsOfAll seen operands

def collectRefsOfAll (seen : List VersionedId) : List Expression → List VersionedId
  | [] => seen
  | e :: es => collectRefsOfAll (collectRefs seen e) es
end

/-- Every rule the tree refers to, once, in the order in which it is first met. -/
def ruleRefs (e : Expression) : List VersionedId := collectRefs [] e

mutual
/-- The number of nodes. -/
def size : Expression → Nat
  | ruleRef _ => 1
  | logical _ operands => 1 + sizeOfAll operands

def sizeOfAll : List Expression → Nat
  | [] => 0
  | e :: es => size e + sizeOfAll es
end

/-! ## Writing -/

mutual
def toJson : Expression → Json
  | ruleRef r =>
    .obj [("node", .str "ruleRef"), ("ruleId", .str r.id),
      ("version", .num (.int r.version.toNat))]
  | logical operator operands =>
    .obj [("node", .str "logical"), ("operator", .str operator.name),
      ("operands", .arr (toJsonAll operands))]

def toJsonAll : List Expression → List Json
  | [] => []
  | e :: es => toJson e :: toJsonAll es
end

/-! ## Reading -/

open Json (Draft Token Flaw)

/-- The two shapes of a node. -/
inductive Shape where
  | ruleRef
  | logical
  deriving DecidableEq, Repr

def Shape.ofName? (s : String) : Option Shape :=
  if s = "ruleRef" then some .ruleRef else if s = "logical" then some .logical else none

/-- The shape named by a tag inside a tree: by its name or by its number. -/
def Shape.ofTag? : Draft → Option Shape
  | .string ⟨.ok s, _⟩ => Shape.ofName? s
  | .number ⟨.ok (.int i), _⟩ =>
    if i = 0 then some .ruleRef else if i = 1 then some .logical else none
  | _ => none

/-- The shape named by the tag of a root, which has to be a string. -/
def Shape.ofRootTag (d : Draft) : Except Flaw Shape := do
  match Shape.ofName? (← d.text) with
  | some s => return s
  | none => throw .mismatched

/-- An operator: its name, or an object that holds only its name with nothing to say about it. -/
def connectiveOfDraft? : Draft → Option Connective
  | .string ⟨.ok s, _⟩ => Connective.ofName? s
  | .object [(⟨.ok s, _⟩, .null)] _ => Connective.ofName? s
  | .object [(⟨.ok s, _⟩, .object [] _)] _ => Connective.ofName? s
  | _ => none

/-- The values of the members with a key. -/
def valuesOf (key : String) (members : List (Token String × Draft)) : List Draft :=
  members.filterMap fun (t, d) =>
    match t.value with
    | .ok k => if k = key then some d else none
    | .error _ => none

/-- The value of the only member with a key. -/
def only? (key : String) (members : List (Token String × Draft)) : Option Draft :=
  match valuesOf key members with
  | [d] => some d
  | _ => none

/-- A reference from the drafts of its two fields. -/
def refOfDrafts? (id version : Draft) : Option Expression :=
  match id.text, version.uint32 with
  | .ok id, .ok version => some (.ruleRef ⟨id, version⟩)
  | _, _ => none

mutual
/-- Reads a node in which there is no flaw. -/
def ofNode? : Draft → Option Expression
  | .object members _ =>
    match (only? "node" members).bind Shape.ofTag? with
    | some .ruleRef =>
      match only? "ruleId" members, only? "version" members with
      | some id, some version => refOfDrafts? id version
      | _, _ => none
    | some .logical =>
      match (only? "operator" members).bind connectiveOfDraft?, operandMembers? members with
      | some operator, [some operands] => some (.logical operator operands)
      | _, _ => none
    | none => none
  | .array items _ =>
    match items with
    | tag :: fields =>
      match Shape.ofTag? tag, fields with
      | some .ruleRef, [id, version] => refOfDrafts? id version
      | some .logical, [operator, operands] =>
        match connectiveOfDraft? operator, operands? operands with
        | some operator, some operands => some (.logical operator operands)
        | _, _ => none
      | _, _ => none
    | [] => none
  | _ => none

/-- Reads the operands of a node. -/
def operands? : Draft → Option (List Expression)
  | .array items _ => ofNodes? items
  | _ => none

def ofNodes? : List Draft → Option (List Expression)
  | [] => some []
  | d :: ds =>
    match ofNode? d, ofNodes? ds with
    | some e, some es => some (e :: es)
    | _, _ => none

/-- What every member named `operands` holds. -/
def operandMembers? : List (Token String × Draft) → List (Option (List Expression))
  | [] => []
  | m :: ms =>
    match m.1.value with
    | .ok k => if k = "operands" then operands? m.2 :: operandMembers? ms else operandMembers? ms
    | .error _ => operandMembers? ms
end

/-- Checks the members of a root in the order written: its tag, once, and no flaw elsewhere. -/
def checkMembers (depth : Nat) (shape : Option Shape) :
    List (Token String × Draft) → Except Flaw (Option Shape)
  | [] => .ok shape
  | (t, d) :: rest => do
    let key ← t.value
    if key = "node" then
      if shape.isSome then throw .mismatched
      checkMembers depth (some (← Shape.ofRootTag d)) rest
    else
      let _ ← d.toJson depth
      checkMembers depth shape rest

/-- Reads an expression. The tag of the root is read when it is met; a flaw elsewhere comes before
any mismatch of the fields. `depth` bounds the nesting below the root. -/
def ofDraft (depth : Nat) (d : Draft) : Except Flaw Expression := do
  match d with
  | .object members close =>
    let shape ← checkMembers depth none members
    close
    if shape.isNone then throw .mismatched
  | .array [] close =>
    close
    throw .mismatched
  | .array (tag :: fields) close =>
    let _ ← Shape.ofRootTag tag
    let _ ← Draft.toJsonItems depth fields
    close
  | d => d.refuse
  match ofNode? d with
  | some e => return e
  | none => throw .mismatched

end Expression

namespace Ruleset

def toJson (r : Ruleset) : Json := .obj [("root", r.root.toJson)]

def ofDraft (d : Json.Draft) : Except Json.Flaw Ruleset := do
  let root := Expression.ofDraft Json.Draft.depthLimit
  let fields ← d.record [.required "root" root]
  return ⟨← fields.get "root" root⟩

end Ruleset
end Verdict
