import Verdict.FileTree.Path
import Verdict.Proofs.FileTree.Graft
import Verdict.Proofs.Results

/-!
# Writing and reading files by path

A file that was written at a path is found there.
-/

namespace Verdict.FileTree

open Results

variable {t t' : FileTree} {place path : List String}

/-- A step that goes down to a name. -/
def GoesDown (s : String) : Prop := s ≠ "" ∧ s ≠ "." ∧ s ≠ ".."

/-! ## Steps -/

theorem step_of_goesDown {s : String} (h : GoesDown s) (t : FileTree) (place : List String) :
    step t place s = (follow (place ++ [s]) t).map fun _ => place ++ [s] := by
  obtain ⟨hempty, hdot, hdots⟩ := h
  rw [step, if_neg]
  simp [hempty, hdot, hdots]

theorem follow_dropLast {node : FileTree} (h : follow place t = .ok node) :
    ∃ node', follow place.dropLast t = .ok node' := by
  rcases List.eq_nil_or_concat' place with rfl | ⟨front, last, rfl⟩
  · exact ⟨t, rfl⟩
  · rw [follow_append] at h
    rw [List.dropLast_concat]
    cases hf : follow front t with
    | error fault =>
      rw [hf] at h
      cases h
    | ok node' => exact ⟨node', rfl⟩

/-- A step leads to something that is there. -/
theorem follow_step {s : String} {p : List String} (h : step t place s = .ok p) :
    ∃ node, follow p t = .ok node := by
  unfold step at h
  split_ifs at h with hs hup
  · split at h
    case h_1 hf =>
      cases h
      exact follow_dropLast hf
    all_goals cases h
  · split at h
    case h_1 hf =>
      cases h
      exact ⟨_, hf⟩
    all_goals cases h
  · obtain ⟨node, hf, rfl⟩ := map_eq_ok_iff.mp h
    exact ⟨node, hf⟩

/-- A step leads to the same place in a tree in which everything is kept. -/
theorem step_of_keeps (hk : Keeps t t') {s : String} {p : List String} (h : step t place s = .ok p) :
    step t' place s = .ok p := by
  unfold step at h ⊢
  split_ifs at h ⊢ with hs hup
  · split at h
    case h_1 cs hf =>
      obtain ⟨node, hf', hdir⟩ := hk _ _ hf
      cases node with
      | file c => cases hdir
      | directory cs' =>
        rw [hf']
        exact h
    all_goals cases h
  · split at h
    case h_1 cs hf =>
      obtain ⟨node, hf', hdir⟩ := hk _ _ hf
      cases node with
      | file c => cases hdir
      | directory cs' =>
        rw [hf']
        exact h
    all_goals cases h
  · obtain ⟨node, hf, rfl⟩ := map_eq_ok_iff.mp h
    obtain ⟨node', hf', -⟩ := hk _ _ hf
    rw [hf']
    rfl

theorem foldlM_step {steps : List String} {p : List String} (hplace : ∃ node, follow place t = .ok node)
    (h : steps.foldlM (step t) place = .ok p) : ∃ node, follow p t = .ok node := by
  induction steps generalizing place with
  | nil =>
    cases h
    exact hplace
  | cons s steps ih =>
    rw [List.foldlM_cons] at h
    obtain ⟨next, hnext, h⟩ := bind_eq_ok_iff.mp h
    exact ih (follow_step hnext) h

theorem follow_locate {p : List String} (h : locate t path = .ok p) :
    ∃ node, follow p t = .ok node :=
  foldlM_step ⟨t, rfl⟩ h

theorem foldlM_step_of_keeps (hk : Keeps t t') {steps p : List String}
    (h : steps.foldlM (step t) place = .ok p) : steps.foldlM (step t') place = .ok p := by
  induction steps generalizing place with
  | nil => exact h
  | cons s steps ih =>
    rw [List.foldlM_cons] at h ⊢
    obtain ⟨next, hnext, h⟩ := bind_eq_ok_iff.mp h
    exact bind_of_ok (step_of_keeps hk hnext) (ih h)

theorem locate_of_keeps (hk : Keeps t t') {p : List String} (h : locate t path = .ok p) :
    locate t' path = .ok p :=
  foldlM_step_of_keeps hk h

/-- Names that go down lead to the place they name. -/
theorem locate_of_goesDown (hpath : ∀ s ∈ path, GoesDown s) {p : List String}
    (h : locate t path = .ok p) : p = path := by
  suffices H : ∀ place : List String, path.foldlM (step t) place = .ok p → p = place ++ path from
    H [] h
  clear h
  induction path with
  | nil =>
    rintro place h
    cases h
    rw [List.append_nil]
  | cons s path ih =>
    intro place h
    rw [List.forall_mem_cons] at hpath
    rw [List.foldlM_cons, step_of_goesDown hpath.1] at h
    obtain ⟨next, hnext, h⟩ := bind_eq_ok_iff.mp h
    obtain ⟨node, -, rfl⟩ := map_eq_ok_iff.mp hnext
    rw [ih hpath.2 _ h, List.append_assoc, List.singleton_append]

/-! ## Slots -/

/-- A slot is found by following all steps of the path but the last, which may lead to nothing. -/
theorem exists_step_of_slot {dirs : List String} {last : String} {names : List String}
    {found : Option FileTree} (h : slot t (dirs ++ [last]) = .ok (names, found)) :
    ∃ place node, locate t dirs = .ok place ∧ follow place t = .ok node ∧
      (step t place last = .ok names ∧ found = t.find? names ∨
        step t place last = .error .notFound ∧ names = place ++ [last] ∧ found = none) := by
  rw [slot, List.getLast?_concat] at h
  dsimp only at h
  rw [List.dropLast_concat] at h
  obtain ⟨place, hplace, h⟩ := bind_eq_ok_iff.mp h
  obtain ⟨node, hnode⟩ := follow_locate hplace
  refine ⟨place, node, hplace, hnode, ?_⟩
  split at h
  case h_1 names' hstep =>
    cases h
    exact .inl ⟨hstep, rfl⟩
  case h_2 hstep =>
    cases h
    exact .inr ⟨hstep, rfl, rfl⟩
  case h_3 => cases h

/-- The slot of a path that ends in a name. -/
theorem slot_eq_ok {dirs : List String} {last : String} (hlast : GoesDown last)
    {names : List String} {found : Option FileTree}
    (h : slot t (dirs ++ [last]) = .ok (names, found)) :
    ∃ place, locate t dirs = .ok place ∧ names = place ++ [last] ∧ Open names t ∧
      found = t.find? names := by
  obtain ⟨place, node, hplace, hnode, hstep⟩ := exists_step_of_slot h
  rw [step_of_goesDown hlast, map_eq_ok_iff, map_eq_error_iff] at hstep
  have hfollow : follow (place ++ [last]) t = follow [last] node := by
    rw [follow_append, hnode]
    rfl
  cases node with
  | file c =>
    rw [hfollow] at hstep
    rcases hstep with ⟨⟨_, hfile, -⟩, -⟩ | ⟨hfile, -⟩ <;> cases hfile
  | directory cs =>
    have hopen := open_of_follow hnode last
    rcases hstep with ⟨⟨node', -, rfl⟩, rfl⟩ | ⟨hmissing, rfl, rfl⟩
    · exact ⟨place, hplace, rfl, hopen, rfl⟩
    · refine ⟨place, hplace, rfl, hopen, ?_⟩
      rw [find?, hmissing]
      rfl

/-- A path that ends in no name leads to something if its slot is found. -/
theorem isSome_of_slot {dirs : List String} {last : String} (hlast : ¬GoesDown last)
    {names : List String} {found : Option FileTree}
    (h : slot t (dirs ++ [last]) = .ok (names, found)) : found.isSome = true := by
  obtain ⟨place, node, -, hnode, ⟨hstep, rfl⟩ | ⟨hstep, -⟩⟩ := exists_step_of_slot h
  · obtain ⟨node', hnode'⟩ := follow_step hstep
    rw [find?, hnode']
    rfl
  · rw [step, if_pos (by unfold GoesDown at hlast; tauto), hnode] at hstep
    cases node with
    | file c => cases hstep
    | directory cs => cases hstep

/-! ## Files -/

/-- Writing puts the file at a place whose directory is there and where no directory is. -/
theorem writeFile_eq_ok {dirs : List String} {last : String} (hlast : GoesDown last)
    {content : Content} (h : writeFile t content (dirs ++ [last]) = .ok t') :
    ∃ place, locate t dirs = .ok place ∧ Open (place ++ [last]) t ∧
      (∀ cs, follow (place ++ [last]) t ≠ .ok (directory cs)) ∧
        t' = graft (file content) (place ++ [last]) t := by
  obtain ⟨⟨names, found⟩, hslot, h⟩ := bind_eq_ok_iff.mp h
  obtain ⟨place, hplace, rfl, hopen, rfl⟩ := slot_eq_ok hlast hslot
  refine ⟨place, hplace, hopen, ?_⟩
  split at h
  · cases h
  case h_2 hnot heq =>
    cases heq
    refine ⟨fun cs hcs => hnot cs ?_, (Except.ok.inj h).symm⟩
    rw [find?, hcs]
    rfl

theorem readPath_eq_ok {path : String} {names : List String} (h : readPath path = .ok names) :
    names = steps path := by
  unfold readPath at h
  split at h
  · cases h
  · exact (Except.ok.inj h).symm

/-- A file that was written is read at the same path. -/
theorem get_of_writeFile {path : String} {dirs : List String} {last : String}
    (hsteps : steps path = dirs ++ [last]) (hlast : GoesDown last) {content : Content}
    (h : (readPath path).bind (t.writeFile content) = .ok t') : t'.get path = .ok (file content) := by
  obtain ⟨names, hnames, hwrite⟩ := bind_eq_ok_iff.mp h
  have hread := readPath_eq_ok hnames
  subst hread
  rw [hsteps] at hwrite
  obtain ⟨place, hplace, hopen, hold, rfl⟩ := writeFile_eq_ok hlast hwrite
  have hfollow : follow (place ++ [last]) (graft (file content) (place ++ [last]) t) =
      .ok (file content) := by
    have := follow_graft_append hopen (file content) []
    rwa [List.append_nil] at this
  have hdirs := locate_of_keeps (keeps_graft_file hopen hold content) hplace
  have hlocate : locate (graft (file content) (place ++ [last]) t) (steps path) =
      .ok (place ++ [last]) := by
    rw [hsteps, locate, List.foldlM_append]
    refine bind_of_ok hdirs ?_
    rw [List.foldlM_cons, step_of_goesDown hlast, hfollow]
    rfl
  have hne : path ≠ "" := by
    rintro rfl
    have hlen := congrArg List.getLast? hsteps
    rw [List.getLast?_concat] at hlen
    exact hlast.1 (Option.some.inj hlen).symm
  rw [get, if_neg hne, hnames]
  exact bind_of_ok rfl (bind_of_ok hlocate hfollow)

end Verdict.FileTree
