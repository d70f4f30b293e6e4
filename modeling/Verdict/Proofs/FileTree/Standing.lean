import Verdict.Proofs.FileTree.Directories

/-!
# What stands at a place

A tree is seen as what stands at each list of names: nothing, a directory, or a file with its
content. A file or an empty directory that is put somewhere is all that changes. A path without `..`
leads where its names say, if what stands on the way are directories.
-/

namespace Verdict.FileTree

open Results

/-- What can stand at a place. A directory is seen without what it holds. -/
inductive Occupant where
  | directory
  | file (content : Content)
  deriving DecidableEq, Repr

def occupant : FileTree → Occupant
  | directory _ => .directory
  | file c => .file c

/-- What stands at the end of a list of names. -/
def occupant? (t : FileTree) (names : List String) : Option Occupant :=
  (t.find? names).map occupant

variable {t t' new : FileTree} {path q : List String}

/-! ## Places -/

theorem occupant?_of_follow {node : FileTree} (h : follow q t = .ok node) :
    t.occupant? q = some node.occupant := by
  rw [occupant?, find?, h]
  rfl

theorem occupant?_of_fault {fault : FileFault} (h : follow q t = .error fault) :
    t.occupant? q = none := by
  rw [occupant?, find?, h]
  rfl

theorem occupant?_eq_some_iff {o : Occupant} :
    t.occupant? q = some o ↔ ∃ node, follow q t = .ok node ∧ node.occupant = o := by
  cases h : follow q t with
  | error fault => simp [occupant?_of_fault h]
  | ok node => simp [occupant?_of_follow h]

theorem occupant?_eq_none_iff : t.occupant? q = none ↔ t.find? q = none := by
  rw [occupant?, Option.map_eq_none_iff]

theorem occupant?_eq_directory_iff :
    t.occupant? q = some .directory ↔ ∃ cs, follow q t = .ok (directory cs) := by
  rw [occupant?_eq_some_iff]
  constructor
  · rintro ⟨c | cs, hnode, ho⟩
    · cases ho
    · exact ⟨cs, hnode⟩
  · rintro ⟨cs, hcs⟩
    exact ⟨_, hcs, rfl⟩

theorem occupant?_congr {q' : List String} (h : follow q t = follow q' t') :
    t.occupant? q = t'.occupant? q' := by
  rw [occupant?, occupant?, find?, find?, h]

/-- Above whatever stands somewhere there are directories. -/
theorem occupant?_above {o : Occupant} {r : List String} (h : t.occupant? (q ++ r) = some o)
    (hr : r ≠ []) : t.occupant? q = some .directory := by
  obtain ⟨name, rest, rfl⟩ := List.exists_cons_of_ne_nil hr
  obtain ⟨node, hnode, -⟩ := occupant?_eq_some_iff.mp h
  rw [follow_append] at hnode
  obtain ⟨above, habove, hrest⟩ := bind_eq_ok_iff.mp hnode
  obtain ⟨cs, -, rfl, -⟩ := follow_cons_eq_ok_iff.mp hrest
  exact occupant?_eq_directory_iff.mpr ⟨cs, habove⟩

theorem occupant?_on_way (h : t.occupant? path = some .directory) (hq : q <+: path) :
    t.occupant? q = some .directory := by
  obtain ⟨r, rfl⟩ := hq
  by_cases hr : r = []
  · rwa [hr, List.append_nil] at h
  · exact occupant?_above h hr

/-! ## Grafts -/

/-- A file or an empty directory, put where no directory is, is all that changes. -/
theorem occupant?_graft (h : Open path t) (hold : t.occupant? path ≠ some .directory)
    (hnew : ∀ r ≠ [], new.occupant? r = none) (q : List String) :
    (graft new path t).occupant? q = if q = path then some new.occupant else t.occupant? q := by
  by_cases hp : path <+: q
  · obtain ⟨r, rfl⟩ := hp
    rw [occupant?_congr (follow_graft_append h new r)]
    by_cases hr : r = []
    · rw [hr, List.append_nil, if_pos rfl]
      rfl
    · rw [if_neg (by simpa using hr), hnew r hr, eq_comm, Option.eq_none_iff_forall_ne_some]
      exact fun o ho => hold (occupant?_above ho hr)
  · have hne : q ≠ path := by
      rintro rfl
      exact hp (List.prefix_refl q)
    rw [if_neg hne]
    by_cases hq : q <+: path
    · obtain ⟨hbefore, hafter⟩ := follow_graft_above h new hq hne
      rw [occupant?_eq_directory_iff.mpr hbefore, occupant?_eq_directory_iff.mpr hafter]
    · exact occupant?_congr (follow_graft_elsewhere h new hp hq)

theorem occupant?_file_below (c : Content) : ∀ r ≠ [], (file c).occupant? r = none := by
  intro r hr
  obtain ⟨name, rest, rfl⟩ := List.exists_cons_of_ne_nil hr
  rfl

theorem occupant?_empty_below : ∀ r ≠ [], empty.occupant? r = none := by
  intro r hr
  obtain ⟨name, rest, rfl⟩ := List.exists_cons_of_ne_nil hr
  exact occupant?_eq_none_iff.mpr rfl

/-! ## Paths without `..` -/

/-- A path that does not go up, by names that files can have. -/
structure Legal (path : List String) : Prop where
  no_up : ".." ∉ path
  short : ∀ s ∈ moves path, s.utf8ByteSize ≤ nameLimit

theorem moves_of_goesDown (h : ∀ s ∈ path, GoesDown s) : moves path = path := by
  rw [moves, List.filter_eq_self]
  exact fun s hs => decide_eq_true ⟨(h s hs).1, (h s hs).2.1⟩

theorem not_up_of_goesDown (h : ∀ s ∈ path, GoesDown s) : ".." ∉ path :=
  fun hmem => (h _ hmem).2.2 rfl

theorem step_of_directory {s : String} (hs : s = "" ∨ s = ".") {place : List String}
    {cs : List (String × FileTree)} (h : follow place t = .ok (directory cs)) :
    step t place s = .ok place := by
  have hup : s ≠ ".." := by rcases hs with rfl | rfl <;> decide
  rw [step, if_pos (by tauto), h]
  exact congrArg Except.ok (if_neg hup)

theorem occupant?_of_hasDirectory (hup : ".." ∉ path) (h : hasDirectory t path = true) :
    t.occupant? (moves path) = some .directory := by
  obtain ⟨place, cs, hlocate, hcs⟩ := hasDirectory_iff.mp h
  obtain rfl := locate_of_no_up hup hlocate
  exact occupant?_eq_directory_iff.mpr ⟨cs, hcs⟩

end Verdict.FileTree
