import Mathlib
import Verdict.FileTree.Basic
import Verdict.Proofs.Table

/-!
# One tree put into another

A tree is seen as what stands at each list of names. Putting another tree at a place whose directory
is there changes what stands at the place and below it, and nothing else.
-/

namespace Verdict.FileTree

/-! ## Children -/

theorem lookup_insertSorted {α : Type} (key k : String) (value : α) (ms : List (String × α)) :
    (insertSorted key value ms).lookup k = if k = key then some value else ms.lookup k := by
  induction ms with
  | nil => rw [insertSorted, Table.lookup_cons]
  | cons m ms ih =>
    obtain ⟨k', v'⟩ := m
    rw [insertSorted]
    by_cases heq : key = k'
    · subst heq
      by_cases hk : k = key <;> simp [Table.lookup_cons, hk]
    · rw [if_neg heq]
      by_cases hlt : key < k'
      · rw [if_pos hlt, Table.lookup_cons]
      · rw [if_neg hlt, Table.lookup_cons, Table.lookup_cons, ih]
        by_cases hk : k = key
        · subst hk
          simp [heq]
        · simp [hk]

theorem lookup_setChild (name k : String) (child : FileTree) (children : List (String × FileTree)) :
    (setChild name child children).lookup k =
      if k = name then some child else children.lookup k := by
  unfold setChild
  split
  · exact Table.lookup_insertEntry name k child children
  · exact lookup_insertSorted name k child children

/-! ## Following -/

variable {t new : FileTree} {path : List String}

theorem follow_cons_eq_ok_iff {name : String} {rest : List String} {s : FileTree} :
    follow (name :: rest) t = .ok s ↔ ∃ children child, t = directory children ∧
      children.lookup name = some child ∧ follow rest child = .ok s := by
  cases t with
  | file c => simp [follow]
  | directory children =>
    rw [follow]
    cases hl : children.lookup name with
    | none => simp [hl]
    | some child => simp [hl]

/-- Following two lists of names is following one after the other. -/
theorem follow_append (p q : List String) (t : FileTree) :
    follow (p ++ q) t = (follow p t).bind (follow q) := by
  induction p generalizing t with
  | nil => rfl
  | cons name p ih =>
    cases t with
    | file c => rfl
    | directory children =>
      rw [List.cons_append, follow, follow]
      cases children.lookup name with
      | none => rfl
      | some child => exact ih child

/-- The directory of a place is there. -/
inductive Open : List String → FileTree → Prop
  | here (name : String) (children : List (String × FileTree)) : Open [name] (directory children)
  | step {name : String} {rest : List String} {children : List (String × FileTree)}
      {child : FileTree} : children.lookup name = some child → Open rest child →
      Open (name :: rest) (directory children)

theorem open_of_follow {place : List String} {children : List (String × FileTree)}
    (h : follow place t = .ok (directory children)) (name : String) : Open (place ++ [name]) t := by
  induction place generalizing t with
  | nil =>
    cases h
    exact .here name children
  | cons first place ih =>
    obtain ⟨cs, child, rfl, hl, hf⟩ := follow_cons_eq_ok_iff.mp h
    exact .step hl (ih hf)

/-- What is put at a place stands there. -/
theorem follow_graft_append (h : Open path t) (new : FileTree) (q : List String) :
    follow (path ++ q) (graft new path t) = follow q new := by
  induction h with
  | here name children =>
    rw [graft, graft, List.singleton_append, follow, lookup_setChild, if_pos rfl]
  | @step name rest children child hl _ ih =>
    rw [graft, List.cons_append, follow, lookup_setChild, if_pos rfl, hl]
    exact ih

/-- Away from the place everything is as before. -/
theorem follow_graft_elsewhere (h : Open path t) (new : FileTree) {q : List String}
    (hq : ¬path <+: q) (hp : ¬q <+: path) : follow q (graft new path t) = follow q t := by
  induction h generalizing q with
  | here name children =>
    cases q with
    | nil => exact absurd List.nil_prefix hp
    | cons k q =>
      have hk : k ≠ name := by
        rintro rfl
        exact hq (List.prefix_append [k] q)
      rw [graft, follow, follow, lookup_setChild, if_neg hk]
  | @step name rest children child hl _ ih =>
    cases q with
    | nil => exact absurd List.nil_prefix hp
    | cons k q =>
      rw [graft, follow, follow, lookup_setChild]
      by_cases hk : k = name
      · subst hk
        rw [List.cons_prefix_cons] at hq hp
        rw [if_pos rfl, hl]
        exact ih (fun hpre => hq ⟨rfl, hpre⟩) fun hpre => hp ⟨rfl, hpre⟩
      · rw [if_neg hk]

/-- On the way to the place there are directories, before and after. -/
theorem follow_graft_above (h : Open path t) (new : FileTree) {q : List String}
    (hq : q <+: path) (hne : q ≠ path) :
    (∃ cs, follow q t = .ok (directory cs)) ∧ ∃ cs, follow q (graft new path t) = .ok (directory cs) := by
  induction h generalizing q with
  | here name children =>
    cases q with
    | nil =>
      rw [graft]
      exact ⟨⟨_, rfl⟩, ⟨_, rfl⟩⟩
    | cons k q =>
      obtain ⟨rfl, htail⟩ := List.cons_prefix_cons.mp hq
      exact absurd (by rw [List.prefix_nil.mp htail]) hne
  | @step name rest children child hl _ ih =>
    cases q with
    | nil =>
      rw [graft]
      exact ⟨⟨_, rfl⟩, ⟨_, rfl⟩⟩
    | cons k q =>
      obtain ⟨rfl, htail⟩ := List.cons_prefix_cons.mp hq
      rw [graft, follow, follow, lookup_setChild, if_pos rfl, hl]
      exact ih htail fun heq => hne (by rw [heq])

/-! ## Files -/

/-- What the file at a place holds, if there is a file. -/
def contentAt (t : FileTree) (q : List String) : Option Content := (t.find? q).bind content?

theorem contentAt_eq_some_iff {q : List String} {c : Content} :
    t.contentAt q = some c ↔ follow q t = .ok (file c) := by
  unfold contentAt find?
  cases follow q t with
  | error fault => simp [Except.toOption]
  | ok node => cases node <;> simp [Except.toOption, content?]

theorem contentAt_congr {t' : FileTree} {q q' : List String} (h : follow q t = follow q' t') :
    t.contentAt q = t'.contentAt q' := by
  rw [contentAt, contentAt, find?, find?, h]

theorem contentAt_directory {q : List String} {cs : List (String × FileTree)}
    (h : follow q t = .ok (directory cs)) : t.contentAt q = none := by
  rw [contentAt, find?, h]
  rfl

/-- Below what is no directory there is nothing. -/
theorem follow_below (hold : ∀ cs, follow path t ≠ .ok (directory cs)) {r : List String}
    (hr : r ≠ []) : ∃ fault, follow (path ++ r) t = .error fault := by
  rw [follow_append]
  cases hf : follow path t with
  | error fault => exact ⟨fault, rfl⟩
  | ok s =>
    cases s with
    | directory cs => exact absurd hf (hold cs)
    | file c =>
      cases r with
      | nil => exact absurd rfl hr
      | cons name r => exact ⟨.notDirectory, rfl⟩

theorem contentAt_below (hold : ∀ cs, follow path t ≠ .ok (directory cs)) {r : List String}
    (hr : r ≠ []) : t.contentAt (path ++ r) = none := by
  obtain ⟨fault, hf⟩ := follow_below hold hr
  rw [contentAt, find?, hf]
  rfl

theorem contentAt_graft_elsewhere (h : Open path t) (new : FileTree) {q : List String}
    (hq : ¬path <+: q) : (graft new path t).contentAt q = t.contentAt q := by
  by_cases hp : q <+: path
  · have hne : q ≠ path := by
      rintro rfl
      exact hq (List.prefix_refl q)
    obtain ⟨⟨cs, hcs⟩, cs', hcs'⟩ := follow_graft_above h new hp hne
    rw [contentAt_directory hcs, contentAt_directory hcs']
  · exact contentAt_congr (follow_graft_elsewhere h new hq hp)

/-- A file at a place where no directory was is one file more, or another content. -/
theorem contentAt_graft_file (h : Open path t) (hold : ∀ cs, follow path t ≠ .ok (directory cs))
    (c : Content) (q : List String) :
    (graft (file c) path t).contentAt q = if q = path then some c else t.contentAt q := by
  by_cases hp : path <+: q
  · obtain ⟨r, rfl⟩ := hp
    rw [contentAt_congr (follow_graft_append h (file c) r)]
    cases r with
    | nil => simp [contentAt, find?, follow, Except.toOption, content?]
    | cons name r =>
      rw [if_neg (by simp), contentAt_below hold (by simp)]
      rfl
  · rw [if_neg, contentAt_graft_elsewhere h _ hp]
    rintro rfl
    exact hp (List.prefix_refl q)

/-- An empty directory at a place where nothing was holds no file. -/
theorem contentAt_graft_empty (h : Open path t) (hold : t.find? path = none) (q : List String) :
    (graft empty path t).contentAt q = t.contentAt q := by
  by_cases hp : path <+: q
  · obtain ⟨r, rfl⟩ := hp
    rw [contentAt_congr (follow_graft_append h empty r)]
    have hnone : t.contentAt (path ++ r) = none := by
      cases r with
      | nil => rw [List.append_nil, contentAt, hold, Option.bind_none]
      | cons name r =>
        refine contentAt_below (fun cs hcs => ?_) (by simp)
        rw [find?, hcs] at hold
        cases hold
    rw [hnone]
    cases r <;> rfl
  · exact contentAt_graft_elsewhere h _ hp

/-- Something stands at every place where something stood, and directories stay directories. -/
def Keeps (t t' : FileTree) : Prop :=
  ∀ q s, follow q t = .ok s → ∃ s', follow q t' = .ok s' ∧ s'.isDirectory = s.isDirectory

/-- What replaces no directory, and a file only by a file, keeps everything. -/
theorem keeps_graft (h : Open path t)
    (hold : ∀ s, follow path t = .ok s → s.isDirectory = false ∧ new.isDirectory = false) :
    Keeps t (graft new path t) := by
  intro q s hs
  by_cases hp : path <+: q
  · obtain ⟨r, rfl⟩ := hp
    rw [follow_graft_append h]
    cases r with
    | nil =>
      rw [List.append_nil] at hs
      obtain ⟨hfile, hnew⟩ := hold s hs
      exact ⟨new, rfl, hnew.trans hfile.symm⟩
    | cons name r =>
      have hnot : ∀ cs, follow path t ≠ .ok (directory cs) := fun cs hcs => by
        cases (hold _ hcs).1
      obtain ⟨fault, hf⟩ := follow_below hnot (show name :: r ≠ [] by simp)
      rw [hf] at hs
      cases hs
  by_cases hq : q <+: path
  · have hne : q ≠ path := by
      rintro rfl
      exact hp (List.prefix_refl q)
    obtain ⟨⟨cs, hcs⟩, cs', hcs'⟩ := follow_graft_above h new hq hne
    rw [hcs] at hs
    cases hs
    exact ⟨_, hcs', rfl⟩
  · exact ⟨s, (follow_graft_elsewhere h _ hp hq).trans hs, rfl⟩

theorem keeps_graft_file (h : Open path t) (hold : ∀ cs, follow path t ≠ .ok (directory cs))
    (c : Content) : Keeps t (graft (file c) path t) := by
  apply keeps_graft h
  intro s hs
  cases s with
  | file c' => exact ⟨rfl, rfl⟩
  | directory cs => exact absurd hs (hold cs)

end Verdict.FileTree
