import Verdict.Proofs.FileTree.Writing

/-!
# Making directories

Making the directories of a path adds empty directories, one after the other, each where nothing was.
So no file changes, whatever the path is. What a path leads to before it is made stays as it is, and
a path without `..` makes nothing but directories on the way to where it leads.
-/

namespace Verdict.FileTree

open Results

variable {t t' : FileTree} {place path : List String}

/-! ## Where a path leads -/

theorem hasDirectory_iff : hasDirectory t path = true ↔
    ∃ place cs, locate t path = .ok place ∧ follow place t = .ok (directory cs) := by
  unfold hasDirectory
  cases hl : locate t path with
  | error fault => simp [Except.bind]
  | ok place =>
    cases hf : follow place t with
    | error fault => simp [Except.bind, hf]
    | ok node => cases node <;> simp [Except.bind, hf]

theorem moves_append (p q : List String) : moves (p ++ q) = moves p ++ moves q := List.filter_append ..

theorem moves_cons_of_stays {s : String} (hs : s = "" ∨ s = ".") (path : List String) :
    moves (s :: path) = moves path := by
  rw [moves, List.filter_cons_of_neg (by simp; tauto)]
  rfl

theorem moves_cons_of_moves {s : String} (hs : ¬(s = "" ∨ s = ".")) (path : List String) :
    moves (s :: path) = s :: moves path := by
  rw [moves, List.filter_cons_of_pos (by simp; tauto)]
  rfl

/-- Steps that stay are taken in directories. -/
theorem step_of_stays {s : String} (hs : s = "" ∨ s = ".") {p : List String}
    (h : step t place s = .ok p) : p = place ∧ ∃ cs, follow place t = .ok (directory cs) := by
  have hup : s ≠ ".." := by rcases hs with rfl | rfl <;> decide
  rw [step, if_pos (by tauto)] at h
  split at h
  case h_1 cs hcs =>
    rw [if_neg hup] at h
    exact ⟨(Except.ok.inj h).symm, cs, hcs⟩
  all_goals cases h

/-- Every step but the last is taken from a directory. -/
theorem isDirectory_of_step {s : String} {p : List String} (h : step t place s = .ok p) :
    ∃ cs, follow place t = .ok (directory cs) := by
  by_cases hs : GoesDown s
  · rw [step_of_goesDown hs] at h
    obtain ⟨node, hnode, -⟩ := map_eq_ok_iff.mp h
    rw [follow_append] at hnode
    obtain ⟨parent, hparent, hchild⟩ := bind_eq_ok_iff.mp hnode
    obtain ⟨cs, -, rfl, -⟩ := follow_cons_eq_ok_iff.mp hchild
    exact ⟨cs, hparent⟩
  · rw [step, if_pos (by unfold GoesDown at hs; tauto)] at h
    split at h
    case h_1 cs hcs => exact ⟨cs, hcs⟩
    all_goals cases h

theorem foldlM_step_filter {p : List String} (h : path.foldlM (step t) place = .ok p) :
    (moves path).foldlM (step t) place = .ok p := by
  induction path generalizing place with
  | nil => exact h
  | cons s path ih =>
    rw [List.foldlM_cons] at h
    obtain ⟨next, hnext, hrest⟩ := bind_eq_ok_iff.mp h
    by_cases hs : s = "" ∨ s = "."
    · obtain ⟨rfl, -⟩ := step_of_stays hs hnext
      rw [moves_cons_of_stays hs]
      exact ih hrest
    · rw [moves_cons_of_moves hs, List.foldlM_cons]
      exact bind_of_ok hnext (ih hrest)

/-- The steps that stay do not matter for where a path leads. -/
theorem locate_moves {p : List String} (h : locate t path = .ok p) : locate t (moves path) = .ok p :=
  foldlM_step_filter h

/-- On the way to a directory there are directories. -/
theorem hasDirectory_take (h : hasDirectory t path = true) (n : ℕ) :
    hasDirectory t (path.take n) = true := by
  obtain ⟨place, cs, hlocate, hcs⟩ := hasDirectory_iff.mp h
  rw [hasDirectory_iff]
  rw [← List.take_append_drop n path, locate, List.foldlM_append] at hlocate
  obtain ⟨mid, hmid, hrest⟩ := bind_eq_ok_iff.mp hlocate
  cases hdrop : path.drop n with
  | nil =>
    rw [hdrop] at hrest
    cases hrest
    exact ⟨place, cs, hmid, hcs⟩
  | cons s rest =>
    rw [hdrop, List.foldlM_cons] at hrest
    obtain ⟨next, hnext, -⟩ := bind_eq_ok_iff.mp hrest
    obtain ⟨cs', hcs'⟩ := isDirectory_of_step hnext
    exact ⟨mid, cs', hmid, hcs'⟩

/-- Without `..` a path leads where its names say. -/
theorem locate_of_no_up (hup : ".." ∉ path) {p : List String} (h : locate t path = .ok p) :
    p = moves path := by
  apply locate_of_goesDown _ (locate_moves h)
  intro s hs
  obtain ⟨hmem, hmoves⟩ := List.mem_filter.mp hs
  simp only [decide_eq_true_eq] at hmoves
  refine ⟨hmoves.1, hmoves.2, ?_⟩
  rintro rfl
  exact hup hmem

theorem get_eq_ok_iff {path : String} {node : FileTree} : t.get path = .ok node ↔
    path ≠ "" ∧ ∃ steps place, readPath path = .ok steps ∧ locate t steps = .ok place ∧
      follow place t = .ok node := by
  unfold get
  by_cases hpath : path = ""
  · simp only [hpath, if_true, ne_eq, not_true_eq_false, false_and, iff_false]
    intro h
    cases h
  · rw [if_neg hpath]
    simp only [bind_eq_ok_iff, exists_and_left, ne_eq, hpath, not_false_eq_true, true_and]

/-! ## One directory -/

/-- Only empty steps stand behind the last step that says something. -/
theorem exists_trimmed (path : List String) :
    ∃ empties, path.rdropWhile (· = "") ++ empties = path ∧ ∀ s ∈ empties, s = "" :=
  ⟨path.rtakeWhile (· = ""), List.rdropWhile_append_rtakeWhile,
    fun _ hs => by simpa using List.mem_rtakeWhile_imp hs⟩

theorem moves_trimmed (path : List String) : moves (path.rdropWhile (· = "")) = moves path := by
  obtain ⟨empties, hsplit, hempties⟩ := exists_trimmed path
  have hstay : moves empties = [] := by
    rw [moves, List.filter_eq_nil_iff]
    intro s hs
    simp [hempties s hs]
  conv_rhs => rw [← hsplit, moves_append, hstay, List.append_nil]

/-- One directory is made where its own directory is there and nothing else is. -/
theorem makeDirectory_eq_ok (h : makeDirectory t path = .ok t') :
    ∃ dirs last place, path.rdropWhile (· = "") = dirs ++ [last] ∧ GoesDown last ∧
      locate t dirs = .ok place ∧ Open (place ++ [last]) t ∧ t.find? (place ++ [last]) = none ∧
      t' = graft empty (place ++ [last]) t := by
  obtain ⟨⟨names, found⟩, hslot, hmake⟩ := bind_eq_ok_iff.mp h
  change slot t (path.rdropWhile (· = "")) = _ at hslot
  split at hmake
  case h_2 => cases hmake
  case h_1 heq =>
    obtain ⟨rfl, rfl⟩ := Prod.mk.inj heq
    rcases List.eq_nil_or_concat' (path.rdropWhile (· = "")) with hnil | ⟨dirs, last, hpath⟩
    · rw [hnil] at hslot
      cases hslot
    · rw [hpath] at hslot
      by_cases hlast : GoesDown last
      · obtain ⟨place, hplace, rfl, hopen, hfind⟩ := slot_eq_ok hlast hslot
        exact ⟨dirs, last, place, hpath, hlast, hplace, hopen, hfind.symm,
          (Except.ok.inj hmake).symm⟩
      · cases isSome_of_slot hlast hslot

/-- A directory that is there is not made. -/
theorem makeDirectory_ne_ok (h : hasDirectory t path = true) : makeDirectory t path ≠ .ok t' := by
  intro hmake
  obtain ⟨dirs, last, place, hpath, hlast, hplace, -, hfind, -⟩ := makeDirectory_eq_ok hmake
  obtain ⟨there, cs, hlocate, -⟩ := hasDirectory_iff.mp h
  obtain ⟨empties, hsplit, -⟩ := exists_trimmed path
  rw [← hsplit, hpath, locate, List.append_assoc, List.foldlM_append] at hlocate
  obtain ⟨place', hplace', hlocate⟩ := bind_eq_ok_iff.mp hlocate
  cases hplace.symm.trans hplace'
  rw [List.singleton_append, List.foldlM_cons, step_of_goesDown hlast] at hlocate
  obtain ⟨next, hnext, -⟩ := bind_eq_ok_iff.mp hlocate
  obtain ⟨node, hnode, -⟩ := map_eq_ok_iff.mp hnext
  rw [find?, hnode] at hfind
  cases hfind

/-- Without `..` a directory is made where the names of its path say. -/
theorem makeDirectory_of_no_up (hup : ".." ∉ path) (h : makeDirectory t path = .ok t') :
    Open (moves path) t ∧ t.find? (moves path) = none ∧ t' = graft empty (moves path) t := by
  obtain ⟨dirs, last, place, hpath, hlast, hplace, hopen, hfind, rfl⟩ := makeDirectory_eq_ok h
  have hdirs : ".." ∉ dirs := fun hmem => by
    refine hup ((List.rdropWhile_prefix (· = "") path).subset ?_)
    rw [hpath]
    exact List.mem_append_left _ hmem
  have hgoes : moves [last] = [last] := by simp [moves, hlast.1, hlast.2.1]
  have hmoves : moves path = place ++ [last] := by
    rw [locate_of_no_up hdirs hplace, ← moves_trimmed, hpath, moves_append, hgoes]
  rw [hmoves]
  exact ⟨hopen, hfind, rfl⟩

/-! ## Induction over the directories made -/

theorem ensureDirectory_of_fault {fault : FileFault} (h : ensureDirectory t path = (t', some fault)) :
    t' = t ∧ hasDirectory t path = false := by
  unfold ensureDirectory at h
  split at h
  · cases h
  · split_ifs at h with hdir
    · cases h
    · cases h
      exact ⟨rfl, by simpa using hdir⟩

theorem ensureDirectory_of_hasDirectory (h : hasDirectory t path = true) :
    ensureDirectory t path = (t, none) := by
  unfold ensureDirectory
  split
  case h_1 t' hmake => exact absurd hmake (makeDirectory_ne_ok h)
  case h_2 => rw [if_pos h]

section Induction

variable {P : FileTree → Prop}

theorem ensureDirectory_induct (hmake : ∀ t', makeDirectory t path = .ok t' → P t → P t')
    (ht : P t) : P (ensureDirectory t path).1 := by
  unfold ensureDirectory
  split
  case h_1 t' h => exact hmake t' h ht
  case h_2 => exact ht

theorem ensureOutward_induct {paths : List (List String)}
    (hmake : ∀ t t', ∀ p ∈ paths, makeDirectory t p = .ok t' → P t → P t') (ht : P t) :
    P (ensureOutward t paths).1 := by
  induction paths with
  | nil => exact ht
  | cons p shorter ih =>
    have hshorter := ih fun t t' q hq => hmake t t' q (List.mem_cons_of_mem p hq)
    have hfirst := fun t t' => hmake t t' p List.mem_cons_self
    unfold ensureOutward
    split
    · split
      case h_1 t' h =>
        rw [h] at hshorter
        exact ensureDirectory_induct (hfirst t') hshorter
      case h_2 t' fault h =>
        rw [h] at hshorter
        exact hshorter
    · exact ensureDirectory_induct (hfirst t) ht

/-- What is preserved by every directory on a path that is made is preserved by making them all. -/
theorem makeDirectories_induct
    (hmake : ∀ t t', ∀ p ∈ ancestors path, makeDirectory t p = .ok t' → P t → P t') (ht : P t) :
    P (t.makeDirectories path).1 :=
  ensureOutward_induct hmake ht

/-- What every new directory preserves is preserved when the directories of a path are made. -/
theorem makeDirectories_preserves (hgraft : ∀ t names, Open names t → t.find? names = none → P t →
    P (graft empty names t)) (ht : P t) : P (t.makeDirectories path).1 := by
  apply makeDirectories_induct _ ht
  intro t t' p _ hmake ht
  obtain ⟨dirs, last, place, -, -, -, hopen, hfind, rfl⟩ := makeDirectory_eq_ok hmake
  exact hgraft t _ hopen hfind ht

end Induction

/-! ## What is left alone -/

/-- Making directories changes no file. -/
theorem contentAt_makeDirectories (t : FileTree) (path q : List String) :
    (t.makeDirectories path).1.contentAt q = t.contentAt q := by
  apply makeDirectories_preserves (P := fun t' => t'.contentAt q = t.contentAt q) _ rfl
  intro t' names hopen hfind h
  rw [contentAt_graft_empty hopen hfind, h]

/-- Directories that are there are not made again. -/
theorem makeDirectories_of_hasDirectory (h : hasDirectory t path = true) :
    t.makeDirectories path = (t, none) := by
  rw [makeDirectories, ancestors, ensureOutward, ensureDirectory_of_hasDirectory h]

theorem moves_take (path : List String) (n : ℕ) : moves ((moves path).take n) = (moves path).take n := by
  rw [moves, List.filter_eq_self]
  intro s hs
  exact (List.mem_filter.mp (List.mem_of_mem_take hs)).2

/-- The way to a directory is a way through directories, from long to short. -/
theorem pairwise_ancestors (path : List String) : (ancestors path).Pairwise fun p q =>
    ∀ t, hasDirectory t p = true → hasDirectory t q = true := by
  have hmoves : ∀ p t n, hasDirectory t p = true → hasDirectory t ((moves p).take n) = true := by
    intro p t n h
    apply hasDirectory_take
    obtain ⟨place, cs, hlocate, hcs⟩ := hasDirectory_iff.mp h
    exact hasDirectory_iff.mpr ⟨place, cs, locate_moves hlocate, hcs⟩
  rw [ancestors, List.pairwise_cons]
  constructor
  · intro q hq t h
    obtain ⟨n, -, rfl⟩ := List.mem_map.mp hq
    exact hmoves path t n h
  · rw [List.pairwise_map, List.pairwise_reverse]
    apply List.pairwise_lt_range.imp
    intro m n hmn t h
    have htake := hmoves _ t m h
    rwa [moves_take, List.take_take, min_eq_left hmn.le] at htake

/-- If directories cannot be made, their path leads to no directory afterwards. -/
theorem hasDirectory_of_fault {fault : FileFault} (h : t.makeDirectories path = (t', some fault)) :
    hasDirectory t' path = false := by
  suffices H : ∀ paths : List (List String), (paths.Pairwise fun p q =>
      ∀ t, hasDirectory t p = true → hasDirectory t q = true) →
      ∀ t' fault, ensureOutward t paths = (t', some fault) →
        ∃ p shorter, paths = p :: shorter ∧ hasDirectory t' p = false by
    obtain ⟨p, shorter, heq, hp⟩ := H _ (pairwise_ancestors path) t' fault h
    cases heq
    exact hp
  intro paths hpaths
  induction paths with
  | nil =>
    intro t' fault h
    cases h
  | cons p shorter ih =>
    intro t' fault h
    refine ⟨p, shorter, rfl, ?_⟩
    obtain ⟨hway, hshorter⟩ := List.pairwise_cons.mp hpaths
    unfold ensureOutward at h
    split at h
    · split at h
      case h_1 made _ =>
        obtain ⟨rfl, hp⟩ := ensureDirectory_of_fault h
        exact hp
      case h_2 made fault' hmade =>
        cases h
        obtain ⟨q, rest, rfl, hq⟩ := ih hshorter _ _ hmade
        rw [Bool.eq_false_iff] at hq ⊢
        exact fun hp => hq (hway q List.mem_cons_self _ hp)
    · obtain ⟨rfl, hp⟩ := ensureDirectory_of_fault h
      exact hp

end Verdict.FileTree
