import Mathlib
import Verdict.Binary64.Rounding

/-!
# Rounding finds the nearest number

The magnitude bits of a number are its significand plus its exponent in units of the hidden bit. An
exact value within half a step of a significand, on the right side of a tie, is rounded to it.
-/

namespace Verdict.Binary64

theorem hiddenBit_eq : hiddenBit = 2 ^ 52 := by norm_num [hiddenBit]

theorem infinityBits_eq : infinityBits = 2047 * hiddenBit := by norm_num [infinityBits, hiddenBit]

/-! ## The parts of a number -/

theorem magnitude_eq (d : Binary64) :
    d.magnitude = d.significand.1 + d.significand.2 * hiddenBit := by
  have hdiv := Nat.div_add_mod d.magnitude hiddenBit
  simp only [significand]
  split_ifs with h
  · simp only [h, mul_zero, zero_add] at hdiv
    simp [hdiv]
  · obtain ⟨e, he⟩ := Nat.exists_eq_succ_of_ne_zero h
    rw [he] at hdiv ⊢
    simp only [Nat.succ_sub_one]
    linarith [Nat.mul_succ hiddenBit e]

theorem significand_lt (d : Binary64) : d.significand.1 < 2 * hiddenBit := by
  have hmod := Nat.mod_lt d.magnitude (show 0 < hiddenBit by decide)
  simp only [significand]
  split_ifs
  · dsimp only
    omega
  · dsimp only
    omega

theorem hiddenBit_le_significand (d : Binary64) (h : 0 < d.significand.2) :
    hiddenBit ≤ d.significand.1 := by
  simp only [significand] at h ⊢
  split_ifs with he
  · simp [he] at h
  · exact Nat.le_add_right _ _

theorem exponent_le {d : Binary64} (h : d.isFinite = true) : d.significand.2 ≤ 2045 := by
  have hlt : d.magnitude < 2047 * hiddenBit := by
    simpa [isFinite, infinityBits_eq] using h
  have hdiv : d.magnitude / hiddenBit < 2047 := (Nat.div_lt_iff_lt_mul (by decide)).mpr hlt
  simp only [significand]
  split_ifs
  · exact Nat.zero_le _
  · dsimp only
    omega

theorem significand_pos {d : Binary64} (h : d.units ≠ 0) : 0 < d.significand.1 := by
  rw [Nat.pos_iff_ne_zero]
  intro hs
  exact h (by rw [units, hs, zero_mul])

theorem ofSignMagnitude_self (d : Binary64) : ofSignMagnitude d.negative d.magnitude = d := by
  obtain ⟨bits⟩ := d
  have hlt := bits.toNat_lt
  have hbits : (if signBit ≤ bits.toNat then signBit + bits.toNat % signBit
      else bits.toNat % signBit) = bits.toNat := by
    split_ifs with h
    · have : bits.toNat % signBit = bits.toNat - signBit := by
        rw [Nat.mod_eq_sub_mod h, Nat.mod_eq_of_lt]
        norm_num [signBit] at h ⊢
        omega
      omega
    · exact Nat.mod_eq_of_lt (by omega)
  simp only [ofSignMagnitude, negative, magnitude, decide_eq_true_eq, hbits, UInt64.ofNat_toNat]

/-! ## Rounding -/

/-- A quotient within half a step of a whole number is rounded to it, and one that lies midway only
if the number is even. -/
theorem divideToEven_eq {num den m : ℕ} (hden : 0 < den) (hlow : 2 * m * den ≤ 2 * num + den)
    (hhigh : 2 * num ≤ 2 * m * den + den)
    (htie : m % 2 = 0 ∨ 2 * m * den < 2 * num + den ∧ 2 * num < 2 * m * den + den) :
    divideToEven num den = m := by
  have hdiv := Nat.div_add_mod num den
  have hmod := Nat.mod_lt num hden
  unfold divideToEven
  generalize num / den = q at *
  generalize num % den = r at *
  have hm : m ≤ q + 1 := by
    by_contra hq
    have := Nat.mul_le_mul_right den (show q + 2 ≤ m by omega)
    nlinarith
  have hq : q ≤ m := by
    by_contra hq
    have := Nat.mul_le_mul_right den (show m + 1 ≤ q by omega)
    nlinarith
  rcases (show m = q ∨ m = q + 1 by omega) with rfl | rfl
  · have hprod : 2 * m * den = 2 * (den * m) := by ring
    rw [hprod] at hlow hhigh htie
    dsimp only
    split_ifs <;> omega
  · have hprod : 2 * (q + 1) * den = 2 * (den * q) + 2 * den := by ring
    rw [hprod] at hlow hhigh htie
    dsimp only
    split_ifs <;> omega

theorem nearestMagnitude_eq {num den m e : ℕ} (hshift : (num / den).log2 - 52 = e)
    (hdivide : divideToEven num (den * 2 ^ e) = m) (hfinite : m + e * hiddenBit ≤ infinityBits) :
    nearestMagnitude num den = m + e * hiddenBit := by
  simp only [nearestMagnitude, hshift, Nat.pow_eq, hdivide]
  exact min_eq_right hfinite

/-- The shift that brings a quotient in a binade to a whole significand. -/
theorem log2_shift {num den e : ℕ} (hden : 0 < den) (hlow : hiddenBit * (den * 2 ^ e) ≤ num)
    (hhigh : num < 2 * hiddenBit * (den * 2 ^ e)) : (num / den).log2 - 52 = e := by
  have hl : 2 ^ (52 + e) ≤ num / den := by
    rw [Nat.le_div_iff_mul_le hden, pow_add, ← hiddenBit_eq]
    linarith
  have hh : num / den < 2 ^ (52 + e + 1) := by
    rw [Nat.div_lt_iff_lt_mul hden, pow_succ, pow_add, ← hiddenBit_eq]
    linarith
  have hne : num / den ≠ 0 := by
    have : 0 < 2 ^ (52 + e) := by positivity
    omega
  rw [(Nat.log2_eq_iff hne).mpr ⟨hl, hh⟩]
  omega

/-- Whole units need no shift, however few they are. -/
theorem log2_shift_zero {num den : ℕ} (hden : 0 < den) (hhigh : num < 2 * hiddenBit * den) :
    (num / den).log2 - 52 = 0 := by
  by_cases hzero : num / den = 0
  · simp [hzero]
  · have hq : num / den < 2 ^ 53 := by
      rw [Nat.div_lt_iff_lt_mul hden, pow_succ, ← hiddenBit_eq]
      linarith
    have := (Nat.log2_lt hzero).mpr hq
    omega

/-- Rounding within a binade, or among the subnormal numbers. -/
theorem nearestMagnitude_in_binade {num den s e : ℕ} (hden : 0 < den) (hs : s < 2 * hiddenBit)
    (hnum : e = 0 ∨ hiddenBit * (den * 2 ^ e) ≤ num)
    (hlow : 2 * s * (den * 2 ^ e) ≤ 2 * num + den * 2 ^ e)
    (hhigh : 2 * num ≤ 2 * s * (den * 2 ^ e) + den * 2 ^ e)
    (htie : s % 2 = 0 ∨ 2 * s * (den * 2 ^ e) < 2 * num + den * 2 ^ e ∧
      2 * num < 2 * s * (den * 2 ^ e) + den * 2 ^ e)
    (hfinite : s + e * hiddenBit ≤ infinityBits) :
    nearestMagnitude num den = s + e * hiddenBit := by
  have hpos : 0 < den * 2 ^ e := by positivity
  have hlt : num < 2 * hiddenBit * (den * 2 ^ e) := by
    have := Nat.mul_le_mul_right (den * 2 ^ e) (show s + 1 ≤ 2 * hiddenBit from hs)
    linarith
  refine nearestMagnitude_eq ?_ (divideToEven_eq hpos hlow hhigh htie) hfinite
  rcases hnum with rfl | hnum
  · exact log2_shift_zero hden (by simpa using hlt)
  · exact log2_shift hden hnum hlt

/-- Just below a power of two the significand has one more place, and rounding carries. -/
theorem nearestMagnitude_below_power {num den e : ℕ} (hden : 0 < den)
    (hlow : 4 * hiddenBit * (den * 2 ^ e) ≤ 2 * num + den * 2 ^ e)
    (hhigh : num < 2 * hiddenBit * (den * 2 ^ e))
    (hfinite : hiddenBit + (e + 1) * hiddenBit ≤ infinityBits) :
    nearestMagnitude num den = hiddenBit + (e + 1) * hiddenBit := by
  have hpos : 0 < den * 2 ^ e := by positivity
  have hone : den * 2 ^ e ≤ hiddenBit * (den * 2 ^ e) := Nat.le_mul_of_pos_left _ (by decide)
  have hshift : (num / den).log2 - 52 = e := log2_shift hden (by linarith) hhigh
  have hdivide : divideToEven num (den * 2 ^ e) = 2 * hiddenBit :=
    divideToEven_eq hpos (by linarith) (by linarith) (.inl (Nat.mul_mod_right 2 _))
  have hcarry : 2 * hiddenBit + e * hiddenBit = hiddenBit + (e + 1) * hiddenBit := by ring
  rw [← hcarry] at hfinite ⊢
  exact nearestMagnitude_eq hshift hdivide hfinite

/-! ## Integers -/

theorem divideToEven_le (num den : ℕ) : divideToEven num den ≤ num / den + 1 := by
  unfold divideToEven
  dsimp only
  split_ifs <;> omega

/-- A whole number of units below a power of two is rounded to a magnitude with its exponent. -/
theorem nearestMagnitude_le {num k : ℕ} (h : num < 2 ^ (53 + k)) :
    nearestMagnitude num 1 ≤ (k + 2) * hiddenBit := by
  simp only [nearestMagnitude, Nat.div_one, one_mul, Nat.pow_eq]
  by_cases hzero : num = 0
  · subst hzero
    exact (min_le_right _ _).trans (by simp [divideToEven])
  have hlog : num.log2 < 53 + k := (Nat.log2_lt hzero).mpr h
  generalize hs : num.log2 - 52 = shift
  have hnum : num < 2 ^ (53 + shift) :=
    (Nat.log2_lt hzero).mp (by omega)
  have hq : num / 2 ^ shift < 2 * hiddenBit := by
    rw [Nat.div_lt_iff_lt_mul (by positivity), hiddenBit_eq, ← pow_succ', ← pow_add]
    exact hnum
  have hshift : shift * hiddenBit ≤ k * hiddenBit := Nat.mul_le_mul_right _ (by omega)
  calc min infinityBits (divideToEven num (2 ^ shift) + shift * hiddenBit)
      ≤ divideToEven num (2 ^ shift) + shift * hiddenBit := min_le_right _ _
    _ ≤ 2 * hiddenBit + k * hiddenBit := by
        have := divideToEven_le num (2 ^ shift)
        omega
    _ = (k + 2) * hiddenBit := by ring

theorem magnitude_ofSignMagnitude {m : ℕ} (h : m < signBit) (negative : Bool) :
    (ofSignMagnitude negative m).magnitude = m := by
  have hsize : 2 ^ 64 = 2 * signBit := by decide
  cases negative with
  | false =>
    have hfit : m % 2 ^ 64 = m := Nat.mod_eq_of_lt (by omega)
    simp only [ofSignMagnitude, magnitude, Bool.false_eq_true, if_false, UInt64.toNat_ofNat']
    rw [hfit, Nat.mod_eq_of_lt h]
  | true =>
    have hfit : (signBit + m) % 2 ^ 64 = signBit + m := Nat.mod_eq_of_lt (by omega)
    simp only [ofSignMagnitude, magnitude, if_true, UInt64.toNat_ofNat']
    rw [hfit, Nat.add_mod_left, Nat.mod_eq_of_lt h]

/-- An integer of 64 bits is rounded to a finite number. -/
theorem isFinite_ofInt {i : ℤ} (h : i.natAbs < 2 ^ 65) : (ofInt i).isFinite = true := by
  have hscale : ∀ n, i.natAbs * 2 ^ n < 2 ^ (53 + (12 + n)) := by
    intro n
    rw [← add_assoc, pow_add]
    exact Nat.mul_lt_mul_of_pos_right h (by positivity)
  have hlt : i.natAbs * one < 2 ^ (53 + (12 + 1074)) := hscale _
  have hle := nearestMagnitude_le hlt
  have hbound : (12 + 1074 + 2) * hiddenBit < infinityBits := by decide
  have hsign : infinityBits < signBit := by decide
  rw [ofInt, isFinite, magnitude_ofSignMagnitude (by omega), decide_eq_true_eq]
  omega

end Verdict.Binary64
