import Verdict.Table

/-!
# Archive entries

An archive is seen as its entries in order. A directory is an entry whose name ends in a slash.
-/

namespace Verdict

/-- An entry of an archive. -/
structure Entry where
  name : String
  /-- The text of the entry; nothing if its bytes are not UTF-8. -/
  text? : Option String
  deriving DecidableEq, Repr, Inhabited

namespace Entry

/-- Whether an entry stands for a directory: its name ends in a slash of either kind. -/
def isDirectory (e : Entry) : Bool :=
  match e.name.toList.getLast? with
  | some c => c = '/' || c = '\\'
  | none => false

/-- Entries under distinct names: a later one takes the place of an earlier. -/
def distinct (entries : List Entry) : List Entry :=
  (Table.ofList (entries.map fun e => (e.name, e))).values

end Entry
end Verdict
