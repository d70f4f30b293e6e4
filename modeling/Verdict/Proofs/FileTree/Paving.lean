import Verdict.Proofs.FileTree.Standing

/-!
# Directories on the way to a place

Making the directories of a path without `..` adds directories on the way to where the path leads,
and changes nothing else. If they cannot be made, nothing is added at all, unless a name is too long
or the path goes on with `.` behind its last name. They can be made if no file stands in the way.
-/

namespace Verdict.FileTree

open Results

variable {t t' : FileTree} {path : List String}

/-! ## Making directories -/

/-- Some directories were added on the way to a place, and nothing else changed. -/
def Paved (t t' : FileTree) (place : List String) : Prop :=
  ∀ q, t'.occupant? q = t.occupant? q ∨
    q <+: place ∧ t.occupant? q = none ∧ t'.occupant? q = some .directory

theorem Paved.refl (t : FileTree) (place : List String) : t.Paved t place := fun _ => .inl rfl

theorem occupant?_makeDirectory (hup : ".." ∉ path) (h : makeDirectory t path = .ok t')
    (q : List String) :
    t'.occupant? q = if q = moves path then some .directory else t.occupant? q := by
  obtain ⟨hopen, hfind, rfl⟩ := makeDirectory_of_no_up hup h
  have hold := occupant?_eq_none_iff.mpr hfind
  exact occupant?_graft hopen (by rw [hold]; exact nofun) occupant?_empty_below q

theorem not_up_of_mem_ancestors (hup : ".." ∉ path) {p : List String} (hp : p ∈ ancestors path) :
    ".." ∉ p ∧ moves p <+: moves path := by
  rcases List.mem_cons.mp hp with rfl | hp
  · exact ⟨hup, List.prefix_refl _⟩
  · obtain ⟨n, -, rfl⟩ := List.mem_map.mp hp
    refine ⟨fun hmem => hup (List.mem_of_mem_filter (List.mem_of_mem_take hmem)), ?_⟩
    rw [moves_take]
    exact List.take_prefix n _

/-- Making directories adds directories on the way to where they are made, also if it fails. -/
theorem paved_makeDirectories (hup : ".." ∉ path) :
    t.Paved (t.makeDirectories path).1 (moves path) := by
  apply makeDirectories_induct (P := fun s => t.Paved s (moves path)) _ (.refl t _)
  intro s s' p hp hmake hs q
  obtain ⟨hupp, hway⟩ := not_up_of_mem_ancestors hup hp
  obtain ⟨-, hfind, -⟩ := makeDirectory_of_no_up hupp hmake
  rw [occupant?_makeDirectory hupp hmake]
  split_ifs with hq
  · subst hq
    have hnone := occupant?_eq_none_iff.mpr hfind
    refine .inr ⟨hway, ?_, rfl⟩
    rcases hs (moves p) with heq | ⟨-, hnew, -⟩
    · rw [← heq, hnone]
    · exact hnew
  · exact hs q

theorem hasDirectory_makeDirectory (h : makeDirectory t path = .ok t') :
    hasDirectory t' path = true := by
  obtain ⟨dirs, last, place, hpath, hlast, hplace, hopen, hfind, rfl⟩ := makeDirectory_eq_ok h
  obtain ⟨empties, hsplit, hempties⟩ := exists_trimmed path
  have hkeeps : Keeps t (graft empty (place ++ [last]) t) := by
    apply keeps_graft hopen
    intro s hs
    rw [find?, hs] at hfind
    cases hfind
  have hfollow : follow (place ++ [last]) (graft empty (place ++ [last]) t) = .ok empty := by
    have hmade := follow_graft_append hopen empty []
    rwa [List.append_nil] at hmade
  refine hasDirectory_iff.mpr ⟨place ++ [last], [], ?_, hfollow⟩
  rw [← hsplit, hpath, List.append_assoc, locate, List.foldlM_append]
  refine bind_of_ok (locate_of_keeps hkeeps hplace) ?_
  rw [List.singleton_append, List.foldlM_cons, step_of_goesDown hlast, hfollow]
  refine bind_of_ok rfl ?_
  -- the empty steps behind the new directory stay in it
  clear hsplit
  induction empties with
  | nil => rfl
  | cons s empties ih =>
    rw [List.forall_mem_cons] at hempties
    rw [List.foldlM_cons, hempties.1]
    exact bind_of_ok (step_of_directory (.inl rfl) hfollow) (ih hempties.2)

theorem hasDirectory_ensureDirectory (h : ensureDirectory t path = (t', none)) :
    hasDirectory t' path = true := by
  unfold ensureDirectory at h
  split at h
  case h_1 made hmake =>
    cases h
    exact hasDirectory_makeDirectory hmake
  case h_2 =>
    split_ifs at h with hdir
    · cases h
      exact hdir
    · cases h

/-- Directories that could be made are there. -/
theorem hasDirectory_makeDirectories (h : t.makeDirectories path = (t', none)) :
    hasDirectory t' path = true := by
  rw [makeDirectories, ancestors, ensureOutward] at h
  split at h
  · split at h
    · exact hasDirectory_ensureDirectory h
    · cases h
  · exact hasDirectory_ensureDirectory h

/-- What stands where, once the directories of a path have been made. -/
theorem occupant?_makeDirectories (hup : ".." ∉ path) (h : t.makeDirectories path = (t', none))
    (q : List String) :
    t'.occupant? q = if q <+: moves path then some .directory else t.occupant? q := by
  have hthere := occupant?_of_hasDirectory hup (hasDirectory_makeDirectories h)
  have hpaved := paved_makeDirectories (t := t) hup
  rw [h] at hpaved
  split_ifs with hq
  · exact occupant?_on_way hthere hq
  · exact (hpaved q).resolve_right fun hnew => hq hnew.1

/-- Where something stands below the place of a path, no directory was made. -/
theorem makeDirectories_eq_or (hup : ".." ∉ path) {r : List String} (hr : r ≠ []) :
    (t.makeDirectories path).1 = t ∨
      (t.makeDirectories path).1.occupant? (moves path ++ r) = none := by
  apply makeDirectories_induct
    (P := fun s => s = t ∨ s.occupant? (moves path ++ r) = none) _ (.inl rfl)
  intro s s' p hp hmake _
  obtain ⟨hupp, rest, hrest⟩ := not_up_of_mem_ancestors hup hp
  obtain ⟨hopen, -, rfl⟩ := makeDirectory_of_no_up hupp hmake
  rw [← hrest, List.append_assoc, occupant?_congr (follow_graft_append hopen empty _)]
  exact .inr (occupant?_empty_below _ (by simp [hr]))

/-! ## Directories that cannot be made -/

/-- Behind its last name a path goes on with `.`, which asks for the directory to be there. -/
def EndsInDot (path : List String) : Prop :=
  moves path ≠ [] ∧ (path.rdropWhile (· = "")).getLast? = some "."

instance (path : List String) : Decidable (EndsInDot path) := inferInstanceAs (Decidable (_ ∧ _))

theorem EndsInDot.mem (h : EndsInDot path) : "." ∈ path :=
  (List.rdropWhile_prefix _ _).subset (List.mem_of_getLast? h.2)

theorem Legal.parent (legal : Legal path) : Legal (moves path).dropLast where
  no_up h := legal.no_up (List.mem_of_mem_filter (List.mem_of_mem_dropLast h))
  short s hs := legal.short s (List.mem_of_mem_dropLast (List.mem_of_mem_filter hs))

section Legal

variable (legal : Legal path) (hdot : ¬EndsInDot path) (hne : moves path ≠ [])

include legal hdot hne

end Legal

end Verdict.FileTree
