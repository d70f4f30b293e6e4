import Verdict.Json.Basic

/-!
# Induction over JSON values

A property of all values follows if it passes from the items of an array to the array, and from the
values of an object's members to the object.
-/

namespace Verdict.Json

theorem sizeOf_lt_arr {x : Json} {xs : List Json} (h : x ∈ xs) : sizeOf x < sizeOf (arr xs) := by
  have := List.sizeOf_lt_of_mem h
  simp only [arr.sizeOf_spec]
  omega

theorem sizeOf_lt_obj {m : String × Json} {ms : List (String × Json)} (h : m ∈ ms) :
    sizeOf m.2 < sizeOf (obj ms) := by
  have := List.sizeOf_lt_of_mem h
  obtain ⟨k, v⟩ := m
  simp only [Prod.mk.sizeOf_spec] at this
  simp only [obj.sizeOf_spec]
  omega

@[elab_as_elim]
theorem induct {P : Json → Prop} (null : P .null) (bool : ∀ b, P (.bool b))
    (num : ∀ n, P (.num n)) (str : ∀ s, P (.str s)) (arr : ∀ xs, (∀ x ∈ xs, P x) → P (.arr xs))
    (obj : ∀ ms, (∀ m ∈ ms, P m.2) → P (.obj ms)) : ∀ j, P j
  | .null => null
  | .bool b => bool b
  | .num n => num n
  | .str s => str s
  | .arr xs => arr xs fun x _ => induct null bool num str arr obj x
  | .obj ms => obj ms fun m _ => induct null bool num str arr obj m.2
termination_by j => sizeOf j
decreasing_by
  · exact sizeOf_lt_arr ‹_›
  · exact sizeOf_lt_obj ‹_›

end Verdict.Json
