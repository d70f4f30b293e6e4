import Verdict.FileTree.Path
import Verdict.Proofs.FileTree.Graft
import Verdict.Proofs.Results

/-!
# Trees without what the files hold

Finding a place, making directories and putting a file in place look at names and never into files.
So each of them does to the outline of a tree what it does to the tree.
-/

namespace Verdict.FileTree

open Results

mutual
/-- The tree with nothing in its files. -/
def outline : FileTree → FileTree
  | file _ => file (.plain (some ""))
  | directory children => directory (outlineChildren children)

def outlineChildren : List (String × FileTree) → List (String × FileTree)
  | [] => []
  | (name, t) :: rest => (name, outline t) :: outlineChildren rest
end

theorem outline_directory (children : List (String × FileTree)) :
    (directory children).outline = directory (outlineChildren children) := rfl

/-! ## Children -/

variable {children : List (String × FileTree)}

theorem lookup_outlineChildren (children : List (String × FileTree)) (name : String) :
    (outlineChildren children).lookup name = (children.lookup name).map outline := by
  induction children with
  | nil => rfl
  | cons e rest ih =>
    obtain ⟨k, t⟩ := e
    rw [outlineChildren, Table.lookup_cons, Table.lookup_cons, ih]
    split_ifs <;> rfl

theorem outlineChildren_insertEntry (name : String) (child : FileTree)
    (children : List (String × FileTree)) :
    outlineChildren (Table.insertEntry name child children) =
      Table.insertEntry name child.outline (outlineChildren children) := by
  induction children with
  | nil => rfl
  | cons e rest ih =>
    obtain ⟨k, t⟩ := e
    rw [Table.insertEntry, outlineChildren, Table.insertEntry]
    split_ifs
    · rw [outlineChildren]
    · rw [outlineChildren, ih]

theorem outlineChildren_insertSorted (name : String) (child : FileTree)
    (children : List (String × FileTree)) :
    outlineChildren (insertSorted name child children) =
      insertSorted name child.outline (outlineChildren children) := by
  induction children with
  | nil => rfl
  | cons e rest ih =>
    obtain ⟨k, t⟩ := e
    rw [insertSorted, outlineChildren, insertSorted]
    split_ifs
    · rw [outlineChildren]
    · rw [outlineChildren, outlineChildren]
    · rw [outlineChildren, ih]

theorem outlineChildren_setChild (name : String) (child : FileTree)
    (children : List (String × FileTree)) :
    outlineChildren (setChild name child children) =
      setChild name child.outline (outlineChildren children) := by
  rw [setChild, setChild, lookup_outlineChildren, Option.isSome_map]
  split_ifs
  · exact outlineChildren_insertEntry name child children
  · exact outlineChildren_insertSorted name child children

/-! ## Following -/

variable (t : FileTree)

theorem follow_outline (names : List String) :
    follow names t.outline = (follow names t).map outline := by
  induction names generalizing t with
  | nil => rfl
  | cons name rest ih =>
    cases t with
    | file c => rfl
    | directory children =>
      rw [outline_directory, follow, follow, lookup_outlineChildren]
      cases children.lookup name with
      | none => rfl
      | some child => exact ih child

theorem find?_outline (names : List String) :
    t.outline.find? names = (t.find? names).map outline := by
  rw [find?, find?, follow_outline]
  cases follow names t <;> rfl

theorem step_outline (place : List String) (s : String) :
    step t.outline place s = step t place s := by
  unfold step
  rw [follow_outline, follow_outline]
  split_ifs
  · rcases follow place t with fault | ⟨c | cs⟩ <;> rfl
  · rcases follow place t with fault | ⟨c | cs⟩ <;> rfl
  · cases follow (place ++ [s]) t <;> rfl

theorem locate_outline (path : List String) : locate t.outline path = locate t path := by
  have hstep : step t.outline = step t := funext₂ t.step_outline
  rw [locate, locate, hstep]

theorem slot_outline (path : List String) :
    slot t.outline path = (slot t path).map fun found => (found.1, found.2.map outline) := by
  unfold slot
  cases path.getLast? with
  | none => rfl
  | some last =>
    dsimp only
    rw [locate_outline]
    cases locate t path.dropLast with
    | error fault => rfl
    | ok place =>
      rw [ok_bind, ok_bind, step_outline]
      cases step t place last with
      | error fault => cases fault <;> rfl
      | ok names =>
        dsimp only
        rw [find?_outline]
        rfl

theorem hasDirectory_outline (path : List String) :
    hasDirectory t.outline path = hasDirectory t path := by
  unfold hasDirectory
  rw [locate_outline]
  cases locate t path with
  | error fault => rfl
  | ok names =>
    dsimp only [Except.bind]
    rw [follow_outline]
    rcases follow names t with fault | ⟨c | cs⟩ <;> rfl

/-! ## Making and writing -/

theorem outline_graft (new : FileTree) (names : List String) :
    (graft new names t).outline = graft new.outline names t.outline := by
  induction names generalizing t with
  | nil => rfl
  | cons name rest ih =>
    cases t with
    | file c => rfl
    | directory children =>
      rw [graft, outline_directory, outlineChildren_setChild, ih, outline_directory, graft,
        lookup_outlineChildren]
      cases children.lookup name <;> rfl

theorem makeDirectory_outline (path : List String) :
    makeDirectory t.outline path = (makeDirectory t path).map outline := by
  unfold makeDirectory
  rw [slot_outline]
  rcases slot t (path.reverse.dropWhile (· = "")).reverse with fault | ⟨names, _ | node⟩
  · rfl
  · exact congrArg Except.ok (outline_graft t empty names).symm
  · rfl

theorem ensureDirectory_outline (path : List String) : ensureDirectory t.outline path =
    ((ensureDirectory t path).1.outline, (ensureDirectory t path).2) := by
  unfold ensureDirectory
  rw [makeDirectory_outline, hasDirectory_outline]
  cases makeDirectory t path <;> rfl

theorem ensureOutward_outline (paths : List (List String)) : ensureOutward t.outline paths =
    ((ensureOutward t paths).1.outline, (ensureOutward t paths).2) := by
  induction paths generalizing t with
  | nil => rfl
  | cons path shorter ih =>
    unfold ensureOutward
    rw [ensureDirectory_outline]
    rcases ensureDirectory t path with ⟨made, _ | fault⟩
    · rfl
    · cases fault
      case notFound =>
        dsimp only
        rw [ih]
        rcases ensureOutward t shorter with ⟨made', _ | fault'⟩
        · exact ensureDirectory_outline made' path
        · rfl
      all_goals rfl

theorem makeDirectories_outline (path : List String) : makeDirectories t.outline path =
    ((makeDirectories t path).1.outline, (makeDirectories t path).2) :=
  ensureOutward_outline t (ancestors path)

/-- Whether a file can be put in place does not depend on what it holds. -/
theorem writeFile_outline (content : Content) (path : List String) :
    writeFile t.outline (.plain (some "")) path = (writeFile t content path).map outline := by
  unfold writeFile
  rw [slot_outline]
  rcases slot t path with fault | ⟨names, _ | ⟨c | cs⟩⟩
  · rfl
  · exact congrArg Except.ok (outline_graft t (file content) names).symm
  · exact congrArg Except.ok (outline_graft t (file content) names).symm
  · rfl

/-! ## Walks -/

mutual
theorem walk_outline (path : List String) : (t : FileTree) →
    walk path t.outline = (walk path t).map fun x => (x.1, x.2.outline)
  | file c => rfl
  | directory children => by
    rw [outline_directory, walk, walk, walkChildren_outline path children]
    rfl

theorem walkChildren_outline (path : List String) : (children : List (String × FileTree)) →
    walkChildren path (outlineChildren children) =
      (walkChildren path children).map fun x => (x.1, x.2.outline)
  | [] => rfl
  | (name, t) :: rest => by
    rw [outlineChildren, walkChildren, walkChildren, List.map_append,
      walk_outline (path ++ [name]) t, walkChildren_outline path rest]
end

end Verdict.FileTree
