import Verdict.Json.Basic
import Verdict.Table
import Verdict.Decimal.Layout
import Verdict.Text.Digits

/-!
# Writing JSON

The compact form has no blanks at all. The pretty form breaks lines and indents by two blanks a
level, with empty arrays and objects on one line. The canonical form is the compact form with the
members of every object sorted by key, so it does not depend on how a document was ordered.
-/

namespace Verdict.Json

/-- The characters that a backslash and a letter stand for, with the letter. -/
def letterEscapes : List (Char × Char) :=
  [('"', '"'), ('\\', '\\'), ('\x08', 'b'), ('\x0c', 'f'), ('\n', 'n'), ('\r', 'r'), ('\t', 't')]

/-- How one character is written inside a JSON string. -/
def escapeChar (c : Char) : List Char :=
  match letterEscapes.lookup c with
  | some letter => ['\\', letter]
  | none => if c.toNat < 0x20 then '\\' :: 'u' :: Text.hexPadded 4 c.toNat else [c]

/-- A JSON string with its quotes. -/
def writeString (s : String) : List Char :=
  '"' :: (s.toList.flatMap escapeChar ++ ['"'])

/-- A number; what is not finite has no JSON form and is written as null. -/
def writeNumber : Number → List Char
  | .int i => (toString i).toList
  | .decimal d => if d.isFinite then Decimal.Layout.json.write d else "null".toList

mutual
/-- The compact form. -/
def write : Json → List Char
  | .null => "null".toList
  | .bool true => "true".toList
  | .bool false => "false".toList
  | .num n => writeNumber n
  | .str s => writeString s
  | .arr xs => '[' :: writeItems xs
  | .obj ms => '{' :: writeMembers ms

/-- The items of an array up to the closing bracket. -/
def writeItems : List Json → List Char
  | [] => [']']
  | x :: xs => write x ++ writeMoreItems xs

def writeMoreItems : List Json → List Char
  | [] => [']']
  | x :: xs => ',' :: (write x ++ writeMoreItems xs)

/-- The members of an object up to the closing brace. -/
def writeMembers : List (String × Json) → List Char
  | [] => ['}']
  | (k, v) :: ms => writeString k ++ ':' :: (write v ++ writeMoreMembers ms)

def writeMoreMembers : List (String × Json) → List Char
  | [] => ['}']
  | (k, v) :: ms => ',' :: (writeString k ++ ':' :: (write v ++ writeMoreMembers ms))
end

/-- The compact form as a text. -/
def compact (j : Json) : String := String.ofList j.write

/-- A new line at the given level. -/
def lineBreak (level : Nat) : List Char := '\n' :: List.replicate (2 * level) ' '

mutual
/-- The pretty form of a value that starts at the given level. -/
def writePretty (level : Nat) : Json → List Char
  | .arr [] => ['[', ']']
  | .arr (x :: xs) =>
    '[' :: (lineBreak (level + 1) ++ writePretty (level + 1) x ++ writePrettyItems level xs)
  | .obj [] => ['{', '}']
  | .obj ((k, v) :: ms) =>
    '{' :: (lineBreak (level + 1) ++ writeString k ++ ':' :: ' ' :: writePretty (level + 1) v ++
      writePrettyMembers level ms)
  | .null => "null".toList
  | .bool true => "true".toList
  | .bool false => "false".toList
  | .num n => writeNumber n
  | .str s => writeString s

def writePrettyItems (level : Nat) : List Json → List Char
  | [] => lineBreak level ++ [']']
  | x :: xs =>
    ',' :: (lineBreak (level + 1) ++ writePretty (level + 1) x ++ writePrettyItems level xs)

def writePrettyMembers (level : Nat) : List (String × Json) → List Char
  | [] => lineBreak level ++ ['}']
  | (k, v) :: ms =>
    ',' :: (lineBreak (level + 1) ++ writeString k ++ ':' :: ' ' :: writePretty (level + 1) v ++
      writePrettyMembers level ms)
end

/-- The pretty form as a text. -/
def pretty (j : Json) : String := String.ofList (j.writePretty 0)

mutual
/-- The same value with the members of every object sorted by key. -/
def sortKeys : Json → Json
  | .arr xs => .arr (sortKeysItems xs)
  | .obj ms => .obj (sortKeysMembers ms)
  | .null => .null
  | .bool b => .bool b
  | .num n => .num n
  | .str s => .str s

def sortKeysItems : List Json → List Json
  | [] => []
  | x :: xs => sortKeys x :: sortKeysItems xs

def sortKeysMembers : List (String × Json) → List (String × Json)
  | [] => []
  | (k, v) :: ms => insertSorted k (sortKeys v) (sortKeysMembers ms)
end

/-- The canonical form: equal for documents that differ in order and blanks only. -/
def canonical (j : Json) : String := j.sortKeys.compact

end Verdict.Json
