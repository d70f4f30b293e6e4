import Verdict.Json.Basic
import Verdict.Table

/-!
# Texts up to their first flaw

A `Draft` is the shape of a text as far as it could be followed: members in the order written, equal
keys kept, and a mark where the text breaks off. What is wrong with a text depends on what it is
read as, because a reader that meets a value of the wrong shape stops there and never sees a later
flaw, and a reader that skips a value looks at it less closely. Both readings are functions on
drafts.
-/

namespace Verdict.Json

/-- A scalar as written: what reading it gives, and whether it can be skipped. Skipping forgives a
number out of range and an unpaired surrogate. -/
structure Token (α : Type) where
  value : Except Flaw α
  skipped : Except Flaw Unit

/-- A text up to its first flaw. -/
inductive Draft where
  | null
  | bool (value : Bool)
  | number (token : Token Number)
  | string (token : Token String)
  /-- An array, and the flaw found where a comma or the closing bracket should follow an item. -/
  | array (items : List Draft) (close : Except Flaw Unit)
  /-- An object, and the flaw found where a comma or the closing brace should follow a member. -/
  | object (members : List (Token String × Draft)) (close : Except Flaw Unit)
  /-- A word that starts like `null`, `true` or `false` and does not end so. -/
  | misspelt (flaw : Flaw)
  /-- No value starts here. -/
  | absent (flaw : Flaw)

namespace Draft

/-- The most arrays and objects that may stand inside each other. -/
def depthLimit : Nat := 127

mutual
/-- The value a draft holds, if there is no flaw in it and it is nested at most `depth` deep. -/
def toJson (depth : Nat) : Draft → Except Flaw Json
  | .null => .ok .null
  | .bool b => .ok (.bool b)
  | .number t => t.value.map .num
  | .string t => t.value.map .str
  | .array items close =>
    match depth with
    | 0 => .error .malformed
    | depth + 1 => do
      let xs ← toJsonItems depth items
      close
      return .arr xs
  | .object members close =>
    match depth with
    | 0 => .error .malformed
    | depth + 1 => do
      let ms ← toJsonMembers depth [] members
      close
      return .obj ms
  | .misspelt f => .error f
  | .absent f => .error f

def toJsonItems (depth : Nat) : List Draft → Except Flaw (List Json)
  | [] => .ok []
  | d :: ds => do
    let x ← toJson depth d
    let xs ← toJsonItems depth ds
    return x :: xs

/-- Adds the members to those `before` them; an equal key replaces the value. -/
def toJsonMembers (depth : Nat) (before : List (String × Json)) :
    List (Token String × Draft) → Except Flaw (List (String × Json))
  | [] => .ok before
  | (t, d) :: ds => do
    let k ← t.value
    let v ← toJson depth d
    toJsonMembers depth (insertSorted k v before) ds
end

mutual
/-- Whether a value can be passed over. -/
def skip : Draft → Except Flaw Unit
  | .null => .ok ()
  | .bool _ => .ok ()
  | .number t => t.skipped
  | .string t => t.skipped
  | .array items close => do
    skipItems items
    close
  | .object members close => do
    skipMembers members
    close
  | .misspelt f => .error f
  | .absent f => .error f

def skipItems : List Draft → Except Flaw Unit
  | [] => .ok ()
  | d :: ds => do
    skip d
    skipItems ds

def skipMembers : List (Token String × Draft) → Except Flaw Unit
  | [] => .ok ()
  | (t, d) :: ds => do
    t.skipped
    skip d
    skipMembers ds
end

end Draft

/-- A token without a flaw. -/
def Token.sound {α : Type} (value : α) : Token α := ⟨.ok value, .ok ()⟩

mutual
/-- The draft of a value: no flaw, members in the order held. -/
def toDraft : Json → Draft
  | .null => .null
  | .bool b => .bool b
  | .num n => .number (.sound n)
  | .str s => .string (.sound s)
  | .arr xs => .array (toDraftItems xs) (.ok ())
  | .obj ms => .object (toDraftMembers ms) (.ok ())

def toDraftItems : List Json → List Draft
  | [] => []
  | x :: xs => toDraft x :: toDraftItems xs

def toDraftMembers : List (String × Json) → List (Token String × Draft)
  | [] => []
  | (k, v) :: ms => (.sound k, toDraft v) :: toDraftMembers ms
end

end Verdict.Json
