import Mathlib
import Verdict.Source.Library

/-!
# Two orders of paths

The files of a directory tree are ordered name by name, the entries of an archive by their whole
names, in which slashes join the names of the path. The two orders differ on two paths exactly if
one of them goes on below a directory, and the other continues the name of that directory with a
character before the slash: `a/b.json` stands before `a.json` name by name, and after it as a text.
-/

namespace Verdict

/-! ## Texts -/

section Characters

variable {as bs rest rest' : List Char}

/-- The smaller of two texts is the start of the larger one, or they differ at some character. -/
theorem cases_of_chars_lt (h : as < bs) : (∃ c tail, bs = as ++ c :: tail) ∨
    ∃ start x y tail tail', as = start ++ x :: tail ∧ bs = start ++ y :: tail' ∧ x < y := by
  induction as generalizing bs with
  | nil =>
    cases bs with
    | nil => exact absurd h (lt_irrefl _)
    | cons c tail => exact .inl ⟨c, tail, rfl⟩
  | cons a as ih =>
    cases bs with
    | nil => exact absurd h (by simp)
    | cons b bs =>
      rcases List.cons_lt_cons_iff.mp h with hab | ⟨rfl, hlt⟩
      · exact .inr ⟨[], a, b, as, bs, rfl, rfl, hab⟩
      · rcases ih hlt with ⟨c, tail, rfl⟩ | ⟨start, x, y, tail, tail', rfl, rfl, hxy⟩
        · exact .inl ⟨c, tail, rfl⟩
        · exact .inr ⟨a :: start, x, y, tail, tail', rfl, rfl, hxy⟩

theorem append_cons_lt {x y : Char} (h : x < y) (start : List Char) :
    start ++ x :: rest < start ++ y :: rest' :=
  List.append_left_lt (List.cons_lt_cons_iff.mpr (.inl h))

theorem lt_append_cons (start : List Char) (c : Char) (tail : List Char) :
    start < start ++ c :: tail := by
  have h : start ++ [] < start ++ c :: tail := List.append_left_lt (List.nil_lt_cons c tail)
  rwa [List.append_nil] at h

end Characters

namespace FileTree

/-- The name of a file in an archive: the names on the way to it, joined by slashes. -/
def joined (names : List String) : String := "/".intercalate names

theorem toList_joined_singleton (name : String) : (joined [name]).toList = name.toList := by
  simp [joined]

theorem toList_joined_cons (name : String) {names : List String} (h : names ≠ []) :
    (joined (name :: names)).toList = name.toList ++ '/' :: (joined names).toList := by
  obtain ⟨next, rest, rfl⟩ := List.exists_cons_of_ne_nil h
  simp [joined, String.intercalate_cons_cons]

/-- A joined text starts with the first name. -/
theorem exists_toList_joined (name : String) (names : List String) :
    ∃ rest, (joined (name :: names)).toList = name.toList ++ rest := by
  by_cases h : names = []
  · subst h
    exact ⟨[], by simp [toList_joined_singleton]⟩
  · exact ⟨_, toList_joined_cons name h⟩

/-- A joined text ends with the last name. -/
theorem getLast_suffix_joined {names : List String} {name : String}
    (h : names.getLast? = some name) : name.toList <:+ (joined names).toList := by
  induction names with
  | nil => cases h
  | cons first names ih =>
    by_cases hn : names = []
    · subst hn
      obtain rfl : first = name := by simpa using h
      rw [toList_joined_singleton]
    · obtain ⟨next, rest, rfl⟩ := List.exists_cons_of_ne_nil hn
      rw [List.getLast?_cons_cons] at h
      rw [toList_joined_cons _ hn]
      exact (ih h).trans ((List.suffix_cons _ _).trans (List.suffix_append _ _))

/-! ## Paths that change places -/

/-- A path that comes before another one name by name is behind it once both are joined. -/
inductive Overtaken : List String → List String → Prop
  | sibling {name name' : String} {c : Char} {tail : List Char} {names names' : List String} :
      names ≠ [] → name'.toList = name.toList ++ c :: tail → c < '/' →
      Overtaken (name :: names) (name' :: names')
  | deeper {name : String} {xs ys : List String} : Overtaken xs ys →
      Overtaken (name :: xs) (name :: ys)

variable {xs ys : List String}

theorem Overtaken.ne_nil (h : Overtaken xs ys) : xs ≠ [] ∧ ys ≠ [] := by
  cases h <;> simp

theorem Overtaken.lt (h : Overtaken xs ys) : xs < ys := by
  induction h with
  | @sibling name name' c tail names names' _ hname _ =>
    have hlt : name < name' := by
      rw [String.lt_iff, hname]
      exact lt_append_cons _ _ _
    exact List.cons_lt_cons_iff.mpr (.inl hlt)
  | deeper _ ih => exact List.cons_lt_cons_iff.mpr (.inr ⟨rfl, ih⟩)

theorem Overtaken.joined_lt (h : Overtaken xs ys) : joined ys < joined xs := by
  induction h with
  | @sibling name name' c tail names names' hne hname hc =>
    obtain ⟨rest, hrest⟩ := exists_toList_joined name' names'
    rw [String.lt_iff, hrest, hname, toList_joined_cons name hne, List.append_assoc]
    exact append_cons_lt hc _
  | @deeper name xs ys hxy ih =>
    rw [String.lt_iff] at ih ⊢
    rw [toList_joined_cons name hxy.ne_nil.1, toList_joined_cons name hxy.ne_nil.2]
    exact List.append_left_lt (List.cons_lt_cons_iff.mpr (.inr ⟨rfl, ih⟩))

/-- Paths whose first names differ stay in order when they are joined, unless one is overtaken. -/
theorem joined_lt_joined_of_head {a b : String} (hslash : '/' ∉ b.toList) (hab : a < b)
    (keeps : ¬ Overtaken (a :: xs) (b :: ys)) : joined (a :: xs) < joined (b :: ys) := by
  rw [String.lt_iff]
  obtain ⟨rest', hrest'⟩ := exists_toList_joined b ys
  rcases cases_of_chars_lt (String.lt_iff.mp hab) with
    ⟨c, tail, hb⟩ | ⟨start, x, y, tail, tail', ha, hb, hxy⟩
  · rw [hrest', hb]
    by_cases hnil : xs = []
    · subst hnil
      rw [toList_joined_singleton, List.append_assoc]
      exact lt_append_cons _ _ _
    · have hne : c ≠ '/' := by
        rintro rfl
        exact hslash (by simp [hb])
      have hle : '/' ≤ c := by
        by_contra hlt
        exact keeps (.sibling hnil hb (not_le.mp hlt))
      rw [toList_joined_cons a hnil, List.append_assoc]
      exact append_cons_lt (lt_of_le_of_ne hle hne.symm) _
  · obtain ⟨rest, hrest⟩ := exists_toList_joined a xs
    rw [hrest, hrest', ha, hb, List.append_assoc, List.append_assoc]
    exact append_cons_lt hxy _

/-- A path that is not overtaken stays before the other one when both are joined. -/
theorem joined_lt_joined (hxs : xs ≠ []) (hslash : ∀ name ∈ ys, '/' ∉ name.toList) (h : xs < ys)
    (keeps : ¬ Overtaken xs ys) : joined xs < joined ys := by
  induction xs generalizing ys with
  | nil => exact absurd rfl hxs
  | cons a xs ih =>
    cases ys with
    | nil => exact absurd h (by simp)
    | cons b ys =>
      rcases List.cons_lt_cons_iff.mp h with hab | ⟨rfl, hlt⟩
      · exact joined_lt_joined_of_head (hslash b List.mem_cons_self) hab keeps
      · have hys : ys ≠ [] := by
          rintro rfl
          exact absurd hlt (by simp)
        rw [String.lt_iff, toList_joined_cons a hys]
        by_cases hnil : xs = []
        · subst hnil
          rw [toList_joined_singleton]
          exact lt_append_cons _ _ _
        · have hrest := ih hnil (fun name hname => hslash name (by simp [hname])) hlt
            fun hover => keeps (.deeper hover)
          rw [toList_joined_cons a hnil]
          exact List.append_left_lt (List.cons_lt_cons_iff.mpr (.inr ⟨rfl, String.lt_iff.mp hrest⟩))

end FileTree

/-- The order of paths name by name is the order of lists. -/
theorem Library.pathBefore_iff {xs ys : List String} : pathBefore xs ys = true ↔ xs ≤ ys := by
  rw [← not_lt]
  induction xs generalizing ys with
  | nil => simp [pathBefore]
  | cons a xs ih =>
    cases ys with
    | nil => simp [pathBefore]
    | cons b ys =>
      rw [pathBefore, List.cons_lt_cons_iff]
      split_ifs with hab
      · simp [hab, ih]
      · rw [decide_eq_true_iff, not_or]
        constructor
        · intro hlt
          exact ⟨lt_asymm hlt, fun h => hab h.1.symm⟩
        · intro h
          exact (lt_or_gt_of_ne hab).resolve_right h.1

end Verdict
