import Mathlib.Data.List.Basic
import Mathlib.Data.List.Induction
import Mathlib.Data.List.Nodup

/-!
# First occurrences

A list that may repeat itself determines an order of its elements: by where each of them occurs
first. `eraseDups` lists them in this order.
-/

namespace Verdict

variable {α β : Type} {l l' : List α} {x y : α}

/-- In a list the first occurrence of one element comes before that of another. -/
def FirstBefore (l : List α) (x y : α) : Prop :=
  ∃ early late, l = early ++ late ∧ x ∈ early ∧ y ∉ early ∧ y ∈ late

namespace FirstBefore

theorem ne (h : FirstBefore l x y) : x ≠ y := by
  obtain ⟨early, late, -, hx, hy, -⟩ := h
  exact fun hxy => hy (hxy ▸ hx)

/-- Two beginnings of a list are the same up to the end of one of them, so an order holds one way
only. -/
theorem asymm (h : FirstBefore l x y) : ¬FirstBefore l y x := by
  obtain ⟨early, late, hl, hx, hy, -⟩ := h
  rintro ⟨early', late', hl', hy', hx', -⟩
  rcases List.prefix_or_prefix_of_prefix ⟨late, hl.symm⟩ ⟨late', hl'.symm⟩ with h | h
  · exact hx' (h.subset hx)
  · exact hy (h.subset hy')

/-- What comes behind a list changes no first occurrence in it. -/
theorem append (h : FirstBefore l x y) (l' : List α) : FirstBefore (l ++ l') x y := by
  obtain ⟨early, late, rfl, hx, hy, hlate⟩ := h
  exact ⟨early, late ++ l', List.append_assoc .., hx, hy, List.mem_append_left _ hlate⟩

theorem mono (h : FirstBefore l x y) (hl : l <+: l') : FirstBefore l' x y := by
  obtain ⟨behind, rfl⟩ := hl
  exact h.append behind

/-- Elements that are left out do not change the order of the others. -/
theorem of_filter {p : α → Bool} (h : FirstBefore (l.filter p) x y) : FirstBefore l x y := by
  obtain ⟨early, late, hl, hx, hy, hlate⟩ := h
  obtain ⟨before, behind, rfl, rfl, rfl⟩ := List.filter_eq_append_iff.mp hl
  rw [List.mem_filter] at hx hlate
  refine ⟨before, behind, rfl, hx.1, fun hbefore => hy ?_, hlate.1⟩
  exact List.mem_filter.mpr ⟨hbefore, hlate.2⟩

theorem map {f : α → β} (hf : Function.Injective f) (h : FirstBefore l x y) :
    FirstBefore (l.map f) (f x) (f y) := by
  obtain ⟨early, late, rfl, hx, hy, hlate⟩ := h
  refine ⟨early.map f, late.map f, List.map_append, List.mem_map_of_mem hx, fun hmem => hy ?_,
    List.mem_map_of_mem hlate⟩
  exact (List.mem_map_of_injective hf).mp hmem

end FirstBefore

/-- One list has the elements of another, each once, in the order in which they first occur
there. -/
structure ListsFirst (occurring listed : List α) : Prop where
  nodup : listed.Nodup
  mem_iff : ∀ x, x ∈ listed ↔ x ∈ occurring
  ordered : listed.Pairwise (FirstBefore occurring)

theorem ListsFirst.map {f : α → β} (hf : Function.Injective f) (h : ListsFirst l l') :
    ListsFirst (l.map f) (l'.map f) where
  nodup := h.nodup.map hf
  mem_iff := by simp [h.mem_iff]
  ordered := List.pairwise_map.mpr (h.ordered.imp fun hxy => hxy.map hf)

/-- No other list does the same. -/
theorem ListsFirst.eq {l₁ l₂ : List α} (h₁ : ListsFirst l l₁) (h₂ : ListsFirst l l₂) : l₁ = l₂ := by
  have hperm : l₁.Perm l₂ := (List.perm_ext_iff_of_nodup h₁.nodup h₂.nodup).mpr fun x =>
    (h₁.mem_iff x).trans (h₂.mem_iff x).symm
  refine hperm.eq_of_pairwise ?_ h₁.ordered h₂.ordered
  exact fun _ _ _ _ hxy hyx => absurd hyx hxy.asymm

variable [DecidableEq α]

theorem eraseDups_concat (l : List α) (x : α) :
    (l ++ [x]).eraseDups = if x ∈ l then l.eraseDups else l.eraseDups ++ [x] := by
  rw [List.eraseDups_append]
  split_ifs with hx <;> simp [List.removeAll, List.eraseDups_cons, hx]

theorem pairwise_eraseDups (l : List α) : l.eraseDups.Pairwise (FirstBefore l) := by
  induction l using List.reverseRecOn with
  | nil => exact List.Pairwise.nil
  | append_singleton l x ih =>
    have hold := ih.imp fun h => h.append [x]
    rw [eraseDups_concat]
    split_ifs with hx
    · exact hold
    · rw [List.pairwise_append]
      refine ⟨hold, List.pairwise_singleton _ _, fun y hy z hz => ?_⟩
      rw [List.mem_singleton] at hz
      rw [List.mem_eraseDups] at hy
      exact ⟨l, [x], rfl, hy, hz ▸ hx, hz ▸ List.mem_singleton_self x⟩

theorem listsFirst_eraseDups (l : List α) : ListsFirst l l.eraseDups where
  nodup := (pairwise_eraseDups l).imp FirstBefore.ne
  mem_iff := fun _ => List.mem_eraseDups
  ordered := pairwise_eraseDups l

/-- The elements of a list that are not among those seen, each once. -/
def unseen (seen l : List α) : List α := (l.filter fun x => x ∉ seen).eraseDups

section Unseen

variable {seen : List α}

theorem mem_unseen_iff : x ∈ unseen seen l ↔ x ∈ l ∧ x ∉ seen := by
  simp [unseen]

theorem unseen_cons_of_mem (h : x ∈ seen) (l : List α) :
    unseen seen (x :: l) = unseen seen l := by
  simp [unseen, h]

theorem unseen_cons_of_not_mem (h : x ∉ seen) (l : List α) :
    unseen seen (x :: l) = x :: unseen (x :: seen) l := by
  rw [unseen, List.filter_cons_of_pos (by simpa using h), List.eraseDups_cons, List.filter_filter]
  simp [unseen, beq_eq_decide]

end Unseen

end Verdict
