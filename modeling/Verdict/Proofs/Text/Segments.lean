import Mathlib
import Verdict.Text.Segments

/-!
# Segments of joined texts

Cutting at a separator undoes joining with it, for parts in which it does not occur.
-/

namespace Verdict.Text

variable {separator : Char} {cs ds : List Char}

theorem segments_ne_nil (separator : Char) (cs : List Char) : segments separator cs ≠ [] := by
  cases cs with
  | nil => simp [segments]
  | cons c cs =>
    rw [segments]
    split_ifs
    · simp
    · split <;> simp

theorem segments_of_not_mem (h : separator ∉ cs) : segments separator cs = [cs] := by
  induction cs with
  | nil => rfl
  | cons c cs ih =>
    rw [List.mem_cons, not_or] at h
    rw [segments, if_neg (Ne.symm h.1), ih h.2]

/-- A separator ends the segments before it. -/
theorem segments_append (separator : Char) (cs ds : List Char) :
    segments separator (cs ++ separator :: ds) = segments separator cs ++ segments separator ds := by
  induction cs with
  | nil => simp [segments]
  | cons c cs ih =>
    rw [List.cons_append, segments, segments, ih]
    split_ifs
    · rfl
    · cases hs : segments separator cs with
      | nil => exact absurd hs (segments_ne_nil separator cs)
      | cons s ss => rfl

/-- Joining the segments of a text with the separator gives the text. -/
theorem intercalate_segments (separator : Char) (cs : List Char) :
    [separator].intercalate (segments separator cs) = cs := by
  induction cs with
  | nil => rfl
  | cons c cs ih =>
    rw [segments]
    obtain ⟨s, ss, hs⟩ := List.exists_cons_of_ne_nil (segments_ne_nil separator cs)
    rw [hs] at ih ⊢
    split_ifs with hc
    · rw [List.intercalate_cons_cons, ih, hc]
      rfl
    · cases ss with
      | nil => simpa using ih
      | cons s' ss => simpa using ih

/-- A text is cut into one segment only if the separator does not occur in it. -/
theorem segments_eq_singleton_iff {s : List Char} :
    segments separator cs = [s] ↔ s = cs ∧ separator ∉ cs := by
  constructor
  · intro h
    by_cases hm : separator ∈ cs
    · obtain ⟨before, after, rfl⟩ := List.append_of_mem hm
      rw [segments_append] at h
      have hlen := congrArg List.length h
      have hbefore := List.length_pos_of_ne_nil (segments_ne_nil separator before)
      have hafter := List.length_pos_of_ne_nil (segments_ne_nil separator after)
      rw [List.length_append, List.length_singleton] at hlen
      omega
    · rw [segments_of_not_mem hm] at h
      exact ⟨(List.cons.inj h).1.symm, hm⟩
  · rintro ⟨rfl, hm⟩
    exact segments_of_not_mem hm

theorem hasEnding_iff {ending cs : List Char} :
    hasEnding ending cs = true ↔ ending <:+ cs := by
  rw [hasEnding, Option.isSome_iff_exists]
  constructor
  · rintro ⟨start, h⟩
    exact ⟨start, (eq_append_of_dropEnding? h).symm⟩
  · rintro ⟨start, rfl⟩
    exact ⟨start, dropEnding?_append ending start⟩

end Verdict.Text
