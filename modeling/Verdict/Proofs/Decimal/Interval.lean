import Mathlib
import Verdict.Decimal.Shortest
import Verdict.Proofs.Binary64.Rounding

/-!
# The values that round to a number

The rounding interval of a number is what its name says: an exact value in it is rounded to the
number. Values are rational numbers of quarter units, so that the ends of intervals are whole.
-/

namespace Verdict

open Binary64 (hiddenBit)

namespace Decimal

/-- A value lies in an interval. -/
def Interval.Contains (r : Interval) (q : ℚ) : Prop :=
  if r.closed then (r.lower : ℚ) ≤ q ∧ q ≤ r.upper else (r.lower : ℚ) < q ∧ q < r.upper

theorem Interval.holds_iff (r : Interval) {scale : ℕ} (h : 0 < scale) (value : ℕ) :
    r.holds scale value = true ↔ r.Contains (value / scale) := by
  have hs : (0 : ℚ) < scale := by exact_mod_cast h
  unfold holds Contains
  rw [le_div_iff₀ hs, div_le_iff₀ hs, lt_div_iff₀ hs, div_lt_iff₀ hs]
  split_ifs
  · simp only [Bool.and_eq_true, decide_eq_true_eq]
    exact_mod_cast Iff.rfl
  · simp only [Bool.and_eq_true, decide_eq_true_eq]
    exact_mod_cast Iff.rfl

theorem Interval.Contains.bounds {r : Interval} {q : ℚ} (h : r.Contains q) :
    (r.lower : ℚ) ≤ q ∧ q ≤ r.upper := by
  unfold Contains at h
  split_ifs at h
  · exact h
  · exact ⟨h.1.le, h.2.le⟩

variable {d : Binary64}

/-- The step from a number to the next. -/
def step (d : Binary64) : ℕ := 2 ^ d.significand.2

theorem units_eq (d : Binary64) : d.units = d.significand.1 * step d := by
  rw [Binary64.units, Nat.pow_eq, step]

theorem step_pos (d : Binary64) : 0 < step d := by
  unfold step
  positivity

theorem roundingInterval_upper (d : Binary64) :
    (roundingInterval d).upper = 4 * d.units + 2 * step d := by
  simp [roundingInterval, step]

theorem roundingInterval_lower (hd : d.units ≠ 0) :
    (roundingInterval d).lower + (if d.significand.1 = hiddenBit ∧ 0 < d.significand.2 then step d
      else 2 * step d) = 4 * d.units := by
  have hs := Binary64.significand_pos hd
  have hu : step d ≤ d.units := by
    rw [units_eq]
    exact Nat.le_mul_of_pos_left _ hs
  simp only [roundingInterval, Nat.pow_eq]
  rw [show (2 : ℕ) ^ d.significand.2 = step d from rfl]
  split_ifs <;> omega

theorem roundingInterval_closed (d : Binary64) :
    (roundingInterval d).closed = true ↔ d.significand.1 % 2 = 0 := by
  simp [roundingInterval]

/-- Every value that rounds to a number lies within half a step of it; on the way down to a power
of two, within a quarter. -/
theorem bounds_of_contains {num den : ℕ} (hd : d.units ≠ 0) (hden : 0 < den)
    (h : (roundingInterval d).Contains (4 * num / den)) :
    4 * d.units * den ≤ 4 * num + (if d.significand.1 = hiddenBit ∧ 0 < d.significand.2 then step d
      else 2 * step d) * den ∧ 2 * num ≤ (2 * d.units + step d) * den := by
  have hq : (0 : ℚ) < den := by exact_mod_cast hden
  obtain ⟨hl, hu⟩ := h.bounds
  rw [le_div_iff₀ hq] at hl
  rw [div_le_iff₀ hq, roundingInterval_upper] at hu
  have hlow := roundingInterval_lower hd
  constructor
  · rw [← hlow, add_mul]
    have : (roundingInterval d).lower * den ≤ 4 * num := by exact_mod_cast hl
    omega
  · have : 4 * num ≤ (4 * d.units + 2 * step d) * den := by exact_mod_cast hu
    linarith

/-- The ends of the interval round to the number only if its significand is even. -/
theorem strict_of_contains {num den : ℕ} (hd : d.units ≠ 0) (hden : 0 < den)
    (h : (roundingInterval d).Contains (4 * num / den)) (hodd : d.significand.1 % 2 ≠ 0) :
    2 * d.units * den < 2 * num + step d * den ∧ 2 * num < (2 * d.units + step d) * den := by
  have hq : (0 : ℚ) < den := by exact_mod_cast hden
  have hclosed : (roundingInterval d).closed = false := by
    rw [← Bool.not_eq_true, roundingInterval_closed]
    exact hodd
  simp only [Interval.Contains, hclosed, Bool.false_eq_true, if_false] at h
  rw [lt_div_iff₀ hq, div_lt_iff₀ hq, roundingInterval_upper] at h
  have hl : (roundingInterval d).lower * den < 4 * num := by exact_mod_cast h.1
  have hu : 4 * num < (4 * d.units + 2 * step d) * den := by exact_mod_cast h.2
  have hlow := roundingInterval_lower hd
  have hwide : ¬(d.significand.1 = hiddenBit ∧ 0 < d.significand.2) := by
    rintro ⟨hs, -⟩
    rw [hs] at hodd
    exact hodd (by decide)
  rw [if_neg hwide] at hlow
  have hprod : (roundingInterval d).lower * den + 2 * step d * den = 4 * d.units * den := by
    rw [← add_mul, hlow]
  constructor <;> linarith

/-- A value in the rounding interval of a number is rounded to the number. -/
theorem nearestMagnitude_of_contains {num den : ℕ} (finite : d.isFinite = true) (hd : d.units ≠ 0)
    (hden : 0 < den) (h : (roundingInterval d).Contains (4 * num / den)) :
    Binary64.nearestMagnitude num den = d.magnitude := by
  obtain ⟨hl, hu⟩ := bounds_of_contains hd hden h
  have hstrict := strict_of_contains hd hden h
  have hfin : d.magnitude < Binary64.infinityBits := by simpa [Binary64.isFinite] using finite
  have hslt := d.significand_lt
  have hnormal := d.hiddenBit_le_significand
  rw [d.magnitude_eq] at hfin ⊢
  rw [units_eq] at hl hu hstrict
  unfold step at hl hu hstrict
  generalize d.significand.1 = s at *
  generalize d.significand.2 = e at *
  by_cases hbelow : (s = hiddenBit ∧ 0 < e) ∧ num < hiddenBit * (den * 2 ^ e)
  · obtain ⟨⟨rfl, he⟩, hnum⟩ := hbelow
    obtain ⟨e, rfl⟩ := Nat.exists_eq_succ_of_ne_zero he.ne'
    have hpow : (2 : ℕ) ^ e.succ = 2 * 2 ^ e := by rw [pow_succ]; ring
    rw [if_pos ⟨rfl, he⟩, hpow] at hl
    rw [hpow] at hnum
    exact Binary64.nearestMagnitude_below_power hden (by linarith) (by linarith) hfin.le
  · have hwide : (if s = hiddenBit ∧ 0 < e then 2 ^ e else 2 * 2 ^ e) * den ≤
        2 * (den * 2 ^ e) := by
      split_ifs
      · linarith [Nat.zero_le (den * 2 ^ e)]
      · linarith
    have hlow : 2 * s * (den * 2 ^ e) ≤ 2 * num + den * 2 ^ e := by linarith
    refine Binary64.nearestMagnitude_in_binade hden hslt ?_ hlow (by linarith) ?_ hfin.le
    · rcases Nat.eq_zero_or_pos e with he | he
      · exact .inl he
      · right
        by_contra hlt
        rw [not_le] at hlt
        have hs : hiddenBit + 1 ≤ s := by
          have hne : s ≠ hiddenBit := fun hs => hbelow ⟨⟨hs, he⟩, hlt⟩
          have := hnormal he
          omega
        have := Nat.mul_le_mul_right (den * 2 ^ e) hs
        have : 0 < den * 2 ^ e := by positivity
        linarith
    · by_cases hodd : s % 2 = 0
      · exact .inl hodd
      · obtain ⟨h₁, h₂⟩ := hstrict hodd
        exact .inr ⟨by linarith, by linarith⟩

end Decimal
end Verdict
