import Verdict.Proofs.Binary64.Rounding

/-!
# Integers held exactly

A magnitude with a full significand has the value of the significand times a power of two. Integers
up to 2⁵³ are values of this form, so they are rounded to themselves and no two of them to the same
number.
-/

namespace Verdict.Binary64

variable {d : Binary64} {s e : ℕ}

/-- A significand that is full, or has no exponent, is read off the magnitude. -/
theorem significand_eq_of_magnitude (h : d.magnitude = s + e * hiddenBit) (hs : s < 2 * hiddenBit)
    (hfull : e = 0 ∨ hiddenBit ≤ s) : d.significand = (s, e) := by
  have hpos : 0 < hiddenBit := by decide
  unfold significand
  rw [h]
  by_cases hsmall : s < hiddenBit
  · obtain rfl : e = 0 := hfull.resolve_right (by omega)
    simp [Nat.div_eq_of_lt hsmall, Nat.mod_eq_of_lt hsmall]
  · obtain ⟨f, rfl⟩ := Nat.exists_eq_add_of_le (not_lt.mp hsmall)
    have hf : f < hiddenBit := by omega
    have hsum : hiddenBit + f + e * hiddenBit = f + hiddenBit * (e + 1) := by ring
    rw [hsum, Nat.add_mul_div_left _ _ hpos, Nat.add_mul_mod_self_left, Nat.div_eq_of_lt hf,
      Nat.mod_eq_of_lt hf]
    simp

theorem units_eq_of_magnitude (h : d.magnitude = s + e * hiddenBit) (hs : s < 2 * hiddenBit)
    (hfull : e = 0 ∨ hiddenBit ≤ s) : d.units = s * 2 ^ e := by
  rw [units, significand_eq_of_magnitude h hs hfull, Nat.pow_eq]

theorem negative_ofSignMagnitude {m : ℕ} (h : m < signBit) (sign : Bool) :
    (ofSignMagnitude sign m).negative = sign := by
  have hsize : 2 ^ 64 = 2 * signBit := by decide
  cases sign with
  | false =>
    have hfit : m % 2 ^ 64 = m := Nat.mod_eq_of_lt (by omega)
    simp only [ofSignMagnitude, negative, Bool.false_eq_true, if_false, UInt64.toNat_ofNat', hfit]
    exact decide_eq_false (not_le.mpr h)
  | true =>
    have hfit : (signBit + m) % 2 ^ 64 = signBit + m := Nat.mod_eq_of_lt (by omega)
    simp only [ofSignMagnitude, negative, if_true, UInt64.toNat_ofNat', hfit]
    exact decide_eq_true (Nat.le_add_right _ _)

/-- A number with a full significand is rounded to itself. -/
theorem nearestMagnitude_exact (hs : s < 2 * hiddenBit) (hfull : e = 0 ∨ hiddenBit ≤ s)
    (hfinite : s + e * hiddenBit ≤ infinityBits) :
    nearestMagnitude (s * 2 ^ e) 1 = s + e * hiddenBit := by
  have hpos : 0 < 2 ^ e := by positivity
  refine nearestMagnitude_in_binade one_pos hs ?_ ?_ ?_ (.inr ⟨?_, ?_⟩) hfinite
  · rw [one_mul]
    exact hfull.imp_right fun h => Nat.mul_le_mul_right _ h
  all_goals
    rw [one_mul, mul_assoc]
    omega

/-- A power of two times a number up to 2⁵³ has a full significand. -/
theorem exists_full_significand {n m : ℕ} (hn : n ≠ 0) (h : n ≤ 2 ^ 53) (hm : 52 ≤ m) :
    ∃ s e, n * Nat.pow 2 m = s * 2 ^ e ∧ hiddenBit ≤ s ∧ s < 2 * hiddenBit ∧ e ≤ m + 1 := by
  rw [hiddenBit_eq, Nat.pow_eq]
  rcases h.eq_or_lt with rfl | hlt
  · refine ⟨2 ^ 52, m + 1, ?_, le_rfl, by norm_num, le_rfl⟩
    rw [← pow_add, ← pow_add]
    congr 1
    omega
  · have hlog : n.log2 < 53 := (Nat.log2_lt hn).mpr hlt
    have hlow : 2 ^ n.log2 ≤ n := Nat.log2_self_le hn
    have hhigh : n < 2 ^ (n.log2 + 1) := Nat.lt_log2_self
    generalize n.log2 = k at *
    have hpos : 0 < 2 ^ (52 - k) := by positivity
    refine ⟨n * 2 ^ (52 - k), m - 52 + k, ?_, ?_, ?_, by omega⟩
    · rw [mul_assoc, ← pow_add]
      congr 2
      omega
    · calc 2 ^ 52 = 2 ^ k * 2 ^ (52 - k) := by rw [← pow_add]; congr 1; omega
        _ ≤ n * 2 ^ (52 - k) := Nat.mul_le_mul_right _ hlow
    · calc n * 2 ^ (52 - k) < 2 ^ (k + 1) * 2 ^ (52 - k) := Nat.mul_lt_mul_of_pos_right hhigh hpos
        _ = 2 * 2 ^ 52 := by rw [← pow_add, ← pow_succ']; congr 1; omega

/-- An integer up to 2⁵³ is held exactly. -/
theorem scaled_ofInt {i : ℤ} (h : i.natAbs ≤ 2 ^ 53) : (ofInt i).scaled = i * one := by
  rcases eq_or_ne i 0 with rfl | hi
  · decide +kernel
  obtain ⟨s, e, hvalue, hfull, hs, he⟩ : ∃ s e, i.natAbs * one = s * 2 ^ e ∧ hiddenBit ≤ s ∧
      s < 2 * hiddenBit ∧ e ≤ 1075 :=
    exists_full_significand (Int.natAbs_ne_zero.mpr hi) h (by norm_num)
  have hmax : e * hiddenBit ≤ 1075 * hiddenBit := Nat.mul_le_mul_right _ he
  have hbound : 2 * hiddenBit + 1075 * hiddenBit < infinityBits := by decide
  have hsign : infinityBits < signBit := by decide
  have hround : nearestMagnitude (i.natAbs * one) 1 = s + e * hiddenBit := by
    rw [hvalue]
    exact nearestMagnitude_exact hs (.inr hfull) (by omega)
  have hmagnitude : (ofInt i).magnitude = s + e * hiddenBit := by
    rw [ofInt, hround, magnitude_ofSignMagnitude (by omega)]
  have hnegative : (ofInt i).negative = decide (i < 0) := by
    rw [ofInt, hround, negative_ofSignMagnitude (by omega)]
  rw [scaled, hnegative, units_eq_of_magnitude hmagnitude hs (.inr hfull), ← hvalue]
  push_cast
  by_cases hneg : i < 0
  · rw [if_pos (by simpa using hneg), abs_of_neg hneg]
    ring
  · rw [if_neg (by simpa using hneg), abs_of_nonneg (not_lt.mp hneg)]

/-- Different integers up to 2⁵³ are different numbers. -/
theorem scaled_ofInt_inj {i j : ℤ} (hi : i.natAbs ≤ 2 ^ 53) (hj : j.natAbs ≤ 2 ^ 53)
    (h : (ofInt i).scaled = (ofInt j).scaled) : i = j := by
  rw [scaled_ofInt hi, scaled_ofInt hj] at h
  have hpos : 0 < one := by decide +kernel
  exact mul_right_cancel₀ (Int.natCast_ne_zero.mpr hpos.ne') h

end Verdict.Binary64
