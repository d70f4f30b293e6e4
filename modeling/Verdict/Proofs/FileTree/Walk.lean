import Verdict.Proofs.FileTree.Graft
import Verdict.Proofs.Json.Sorting

/-!
# Walks

A tree in which no name is used twice in a directory is walked through completely: a walk lists what
stands at each place, and nothing else.
-/

namespace Verdict.FileTree

/-- No directory of the tree uses a name twice. -/
inductive Tidy : FileTree → Prop
  | file (c : Content) : Tidy (file c)
  | directory {children : List (String × FileTree)} : (children.map (·.1)).Nodup →
      (∀ e ∈ children, Tidy e.2) → Tidy (directory children)

theorem tidy_empty : Tidy empty := .directory List.nodup_nil (by simp)

/-! ## Changes -/

variable {name : String} {child : FileTree} {children : List (String × FileTree)}

theorem mem_setChild {e : String × FileTree} (h : e ∈ setChild name child children) :
    e = (name, child) ∨ e ∈ children := by
  unfold setChild at h
  split at h
  · exact Table.mem_insertEntry h
  · exact Json.mem_insertSorted h

theorem nodup_setChild (h : (children.map (·.1)).Nodup) (name : String) (child : FileTree) :
    ((setChild name child children).map (·.1)).Nodup := by
  unfold setChild
  split
  case isTrue hl =>
    rw [Table.keys_insertEntry, if_pos (Table.lookup_isSome_iff.mp hl)]
    exact h
  case isFalse hl =>
    have hnew : name ∉ children.map (·.1) := fun hm => hl (Table.lookup_isSome_iff.mpr hm)
    rw [((insertSorted_perm hnew child).map _).nodup_iff, List.map_cons, List.nodup_cons]
    exact ⟨hnew, h⟩

/-- What a directory hands on to its children and takes over from a new child, a tree keeps when a
tree of the same sort is put into it. -/
theorem graft_preserves {P : FileTree → Prop} (hempty : P empty)
    (hchild : ∀ children, P (directory children) → ∀ e ∈ children, P e.2)
    (hset : ∀ children name child, P (directory children) → P child →
      P (directory (setChild name child children)))
    {t new : FileTree} (ht : P t) (hnew : P new) (path : List String) : P (graft new path t) := by
  induction path generalizing t with
  | nil => exact hnew
  | cons name rest ih =>
    cases t with
    | file c => exact ht
    | directory children =>
      have hold : P ((children.lookup name).getD empty) := by
        cases hl : children.lookup name with
        | none => exact hempty
        | some child => exact hchild _ ht _ (Table.mem_entries_of_find? (t := ⟨children⟩) hl)
      exact hset _ _ _ ht (ih hold)

theorem tidy_of_mem (h : (directory children).Tidy) : ∀ e ∈ children, e.2.Tidy := by
  cases h with
  | directory _ hchildren => exact hchildren

theorem tidy_setChild (h : (directory children).Tidy) (name : String) (hchild : child.Tidy) :
    (directory (setChild name child children)).Tidy := by
  cases h with
  | directory hnodup hchildren =>
    refine .directory (nodup_setChild hnodup name child) fun e he => ?_
    rcases mem_setChild he with rfl | he
    · exact hchild
    · exact hchildren e he

/-- A tidy tree put into a tidy tree leaves it tidy. -/
theorem Tidy.graft {t new : FileTree} (ht : t.Tidy) (hnew : new.Tidy) (path : List String) :
    (graft new path t).Tidy :=
  graft_preserves tidy_empty (fun _ => tidy_of_mem) (fun _ name _ h => tidy_setChild h name) ht hnew
    path

/-! ## Walks -/

theorem mem_walkChildren {path : List String} {x : List String × FileTree} :
    x ∈ walkChildren path children ↔ ∃ e ∈ children, x ∈ walk (path ++ [e.1]) e.2 := by
  induction children with
  | nil => simp [walkChildren]
  | cons e rest ih =>
    obtain ⟨name, t⟩ := e
    rw [walkChildren, List.mem_append, ih]
    simp

/-- A walk through a tidy tree lists what stands in it. -/
theorem Tidy.mem_walk {t : FileTree} (ht : t.Tidy) {path p : List String} {node : FileTree} :
    (p, node) ∈ walk path t ↔ ∃ q, p = path ++ q ∧ follow q t = .ok node := by
  induction ht generalizing path with
  | file c =>
    rw [walk, List.mem_singleton]
    constructor
    · rintro h
      cases h
      exact ⟨[], (List.append_nil _).symm, rfl⟩
    · rintro ⟨q, rfl, hq⟩
      cases q with
      | nil =>
        cases hq
        rw [List.append_nil]
      | cons k q => cases hq
  | @directory children hnodup _ ih =>
    rw [walk, List.mem_cons, mem_walkChildren]
    constructor
    · rintro (h | ⟨e, he, h⟩)
      · cases h
        exact ⟨[], (List.append_nil _).symm, rfl⟩
      · obtain ⟨q, rfl, hq⟩ := (ih e he).mp h
        refine ⟨e.1 :: q, List.append_assoc path [e.1] q, ?_⟩
        have hl : children.lookup e.1 = some e.2 :=
          (Table.Distinct.find?_eq_some_iff (t := ⟨children⟩) hnodup).mpr he
        rw [follow, hl]
        exact hq
    · rintro ⟨q, rfl, hq⟩
      cases q with
      | nil =>
        cases hq
        exact .inl (by rw [List.append_nil])
      | cons k q =>
        obtain ⟨cs, child, hcs, hl, hf⟩ := follow_cons_eq_ok_iff.mp hq
        cases hcs
        have hmem : (k, child) ∈ children := Table.mem_entries_of_find? (t := ⟨children⟩) hl
        refine .inr ⟨(k, child), hmem, (ih _ hmem).mpr ⟨q, ?_, hf⟩⟩
        rw [List.append_assoc, List.singleton_append]

end Verdict.FileTree
