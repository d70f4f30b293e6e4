import Verdict.Proofs.FileTree.Paving
import Verdict.Proofs.FileTree.Walk
import Verdict.Proofs.Source.Order

/-!
# Walks in order

In a tree whose directories are sorted by name a walk comes through the places in their order, name by
name. A directory may be told from a file by an empty name behind the names of its place: it is then
still before all that it holds, and joining the names gives it a slash at the end.
-/

namespace Verdict.FileTree

/-! ## Sorted trees -/

/-- Every directory of the tree is sorted by name. -/
inductive Sorted : FileTree → Prop
  | file (c : Content) : Sorted (file c)
  | directory {children : List (String × FileTree)} : (children.Pairwise fun e e' => e.1 < e'.1) →
      (∀ e ∈ children, Sorted e.2) → Sorted (directory children)

theorem sorted_empty : Sorted empty := .directory .nil (by simp)

theorem Sorted.tidy {t : FileTree} (h : t.Sorted) : t.Tidy := by
  induction h with
  | file c => exact .file c
  | directory hsorted _ ih =>
    refine .directory ?_ ih
    rw [List.Nodup, List.pairwise_map]
    exact hsorted.imp ne_of_lt

theorem sorted_setChild {children : List (String × FileTree)}
    (h : children.Pairwise fun e e' => e.1 < e'.1) (name : String) (child : FileTree) :
    (setChild name child children).Pairwise fun e e' => e.1 < e'.1 := by
  unfold setChild
  split
  case isTrue hl =>
    -- the names are the same as before
    rw [← List.pairwise_map (f := Prod.fst) (R := (· < ·))] at h ⊢
    rwa [Table.keys_insertEntry, if_pos (Table.lookup_isSome_iff.mp hl)]
  case isFalse => exact Json.sorted_insertSorted h

theorem sorted_of_mem {children : List (String × FileTree)} (h : (directory children).Sorted) :
    ∀ e ∈ children, e.2.Sorted := by
  cases h with
  | directory _ hchildren => exact hchildren

theorem sorted_directory_setChild {child : FileTree} {children : List (String × FileTree)}
    (h : (directory children).Sorted) (name : String) (hchild : child.Sorted) :
    (directory (setChild name child children)).Sorted := by
  cases h with
  | directory hsorted hchildren =>
    refine .directory (sorted_setChild hsorted name child) fun e he => ?_
    rcases mem_setChild he with rfl | he
    · exact hchild
    · exact hchildren e he

/-- A sorted tree put into a sorted tree leaves it sorted. -/
theorem Sorted.graft {t new : FileTree} (ht : t.Sorted) (hnew : new.Sorted) (path : List String) :
    (graft new path t).Sorted :=
  graft_preserves sorted_empty (fun _ => sorted_of_mem)
    (fun _ name _ h => sorted_directory_setChild h name) ht hnew path

theorem Sorted.makeDirectories {t : FileTree} (h : t.Sorted) (path : List String) :
    (t.makeDirectories path).1.Sorted :=
  makeDirectories_preserves (fun _ names _ _ ht => ht.graft sorted_empty names) h

/-! ## Walks -/

/-- Whatever a walk lists stands below where it starts. -/
theorem prefix_of_mem_walk {t : FileTree} (h : t.Sorted) {path p : List String} {node : FileTree}
    (hp : (p, node) ∈ walk path t) : path <+: p := by
  obtain ⟨q, rfl, -⟩ := h.tidy.mem_walk.mp hp
  exact List.prefix_append path q

theorem lt_append {q r : List String} (hr : r ≠ []) : q < q ++ r := by
  obtain ⟨name, rest, rfl⟩ := List.exists_cons_of_ne_nil hr
  have h : q ++ [] < q ++ name :: rest := List.append_left_lt (List.nil_lt_cons name rest)
  rwa [List.append_nil] at h

theorem append_lt_append {path p p' : List String} {name name' : String} (hp : path ++ [name] <+: p)
    (hp' : path ++ [name'] <+: p') (h : name < name') : p < p' := by
  obtain ⟨q, rfl⟩ := hp
  obtain ⟨q', rfl⟩ := hp'
  rw [List.append_assoc, List.append_assoc]
  exact List.append_left_lt (List.cons_lt_cons_iff.mpr (.inl h))

theorem pairwise_walkChildren {children : List (String × FileTree)} {path : List String}
    (hsorted : children.Pairwise fun e e' => e.1 < e'.1) (h : ∀ e ∈ children, e.2.Sorted)
    (ih : ∀ e ∈ children, (walk (path ++ [e.1]) e.2).Pairwise fun x y => x.1 < y.1) :
    (walkChildren path children).Pairwise fun x y => x.1 < y.1 := by
  induction children with
  | nil => exact .nil
  | cons e children ihc =>
    obtain ⟨name, t⟩ := e
    rw [List.pairwise_cons] at hsorted
    rw [List.forall_mem_cons] at h ih
    rw [walkChildren, List.pairwise_append]
    refine ⟨ih.1, ihc hsorted.2 h.2 ih.2, ?_⟩
    rintro ⟨p, node⟩ hp ⟨p', node'⟩ hp'
    obtain ⟨e, he, hp'⟩ := mem_walkChildren.mp hp'
    exact append_lt_append (prefix_of_mem_walk h.1 hp) (prefix_of_mem_walk (h.2 e he) hp')
      (hsorted.1 e he)

/-- A walk through a sorted tree comes through the places in order. -/
theorem Sorted.pairwise_walk {t : FileTree} (h : t.Sorted) (path : List String) :
    (walk path t).Pairwise fun x y => x.1 < y.1 := by
  induction h generalizing path with
  | file c => exact List.pairwise_singleton _ _
  | @directory children hsorted hchildren ih =>
    rw [walk, List.pairwise_cons]
    refine ⟨?_, pairwise_walkChildren hsorted hchildren fun e he => ih e he _⟩
    rintro ⟨p, node⟩ hp
    obtain ⟨e, he, hp⟩ := mem_walkChildren.mp hp
    obtain ⟨q, rfl⟩ := prefix_of_mem_walk (hchildren e he) hp
    rw [List.append_assoc]
    exact lt_append (by simp)

/-! ## Directories marked by an empty name -/

/-- The names of a place, with an empty one behind them if there is a directory. -/
def marked (q : List String) (node : FileTree) : List String :=
  if node.isDirectory then q ++ [""] else q

theorem joined_concat_empty {q : List String} (hne : q ≠ []) : joined (q ++ [""]) = joined q ++ "/" := by
  induction q with
  | nil => exact absurd rfl hne
  | cons name q ih =>
    rw [← String.toList_inj, String.toList_append, List.cons_append,
      toList_joined_cons name (by simp)]
    by_cases hq : q = []
    · subst hq
      rw [toList_joined_singleton]
      rfl
    · rw [ih hq, toList_joined_cons name hq, String.toList_append, List.append_assoc]
      rfl

theorem empty_lt {s : String} (h : s ≠ "") : "" < s := by
  rw [String.lt_iff]
  cases hs : s.toList with
  | nil => exact absurd (String.toList_inj.mp hs) h
  | cons c cs => exact List.nil_lt_cons c cs

/-- An empty name behind the names of a place does not bring it behind a later place. -/
theorem concat_empty_lt {q q' : List String} (h : q < q') (hne : ∀ s ∈ q', s ≠ "") :
    q ++ [""] < q' := by
  induction q generalizing q' with
  | nil =>
    cases q' with
    | nil => exact absurd h (lt_irrefl _)
    | cons s q' => exact List.cons_lt_cons_iff.mpr (.inl (empty_lt (hne s List.mem_cons_self)))
  | cons s q ih =>
    cases q' with
    | nil => exact absurd h (by simp)
    | cons s' q' =>
      rw [List.forall_mem_cons] at hne
      rw [List.cons_append, List.cons_lt_cons_iff]
      exact (List.cons_lt_cons_iff.mp h).imp_right fun ⟨heq, hlt⟩ => ⟨heq, ih hlt hne.2⟩

theorem marked_lt_marked {q q' : List String} (h : q < q') (hne : ∀ s ∈ q', s ≠ "")
    (node node' : FileTree) : marked q node < marked q' node' := by
  have hq : marked q node < q' := by
    unfold marked
    split_ifs
    · exact concat_empty_lt h hne
    · exact h
  refine lt_of_lt_of_le hq ?_
  unfold marked
  split_ifs
  · exact (lt_append (by simp)).le
  · exact le_refl q'

end Verdict.FileTree
