import Mathlib
import Verdict.Proofs.Decimal.Interval

/-!
# Shortest decimals read back

Some grid has a decimal in the rounding interval of every finite number, the finest at the latest, so
the search for the shortest decimal ends with one. Any decimal in the interval, however it is
written, is read as the number.
-/

namespace Verdict.Decimal

open Binary64 (hiddenBit)

/-- The value of a decimal with the given digits and last place. -/
def decimalValue (digits : ℕ) (exponent : ℤ) : ℚ := digits * 10 ^ exponent

theorem pow_toNat_div (exponent : ℤ) :
    (10 : ℚ) ^ exponent.toNat / 10 ^ (-exponent).toNat = 10 ^ exponent := by
  rcases exponent with n | n
  · simp
  · simp [zpow_negSucc]

/-- The value of a quotient of whole numbers of quarter units, as it is held on a grid. -/
theorem grid_value (c : ℕ) (exponent : ℤ) :
    ((c * (Nat.pow 10 exponent.toNat * quartersPerOne) : ℕ) : ℚ) /
      (Nat.pow 10 (-exponent).toNat : ℕ) = decimalValue c exponent * quartersPerOne := by
  rw [decimalValue, ← pow_toNat_div exponent]
  push_cast [Nat.pow_eq]
  ring

variable {d : Binary64} {tie : Tie} {exponent : ℤ}

theorem grid_scale_pos (exponent : ℤ) : 0 < Nat.pow 10 (-exponent).toNat := by
  rw [Nat.pow_eq]
  positivity

/-- What is found on a grid rounds to the number. -/
theorem contains_of_onGrid {s : Scientific} (h : onGrid tie d exponent = some s) :
    (roundingInterval d).Contains (decimalValue s.digits s.exponent * quartersPerOne) := by
  have hheld : ∀ c, (roundingInterval d).holds (Nat.pow 10 (-exponent).toNat)
      (c * (Nat.pow 10 exponent.toNat * quartersPerOne)) = true →
      (roundingInterval d).Contains (decimalValue c exponent * quartersPerOne) := by
    intro c hc
    rwa [Interval.holds_iff _ (grid_scale_pos exponent), grid_value] at hc
  simp only [onGrid] at h
  generalize Nat.pow 10 exponent.toNat * quartersPerOne = step at *
  generalize 4 * d.units * Nat.pow 10 (-exponent).toNat / step = c at *
  split_ifs at h with hboth hl hr hlow hhigh
  · cases h
    exact hheld _ (Bool.and_eq_true_iff.mp hboth).1
  · cases h
    exact hheld _ (Bool.and_eq_true_iff.mp hboth).2
  · obtain ⟨hlow, hhigh⟩ := Bool.and_eq_true_iff.mp hboth
    cases tie with
    | away =>
      cases h
      exact hheld _ hhigh
    | toEven =>
      cases h
      rcases Nat.mod_two_eq_zero_or_one c with hc | hc
      · simpa only [hc, add_zero] using hheld c hlow
      · simpa only [hc] using hheld (c + 1) hhigh
  · cases h
    exact hheld _ hlow
  · cases h
    exact hheld _ hhigh

/-! ## The finest grid -/

theorem quartersPerOne_le : quartersPerOne ≤ Nat.pow 10 324 := by decide +kernel

theorem Interval.contains_of_lt {r : Interval} {q : ℚ} (hl : (r.lower : ℚ) < q) (hu : q < r.upper) :
    r.Contains q := by
  unfold Contains
  split_ifs
  · exact ⟨hl.le, hu.le⟩
  · exact ⟨hl, hu⟩

/-- The first multiple of a step above a number is in its interval, if the step is short. -/
theorem holds_above {scale width : ℕ} (hd : d.units ≠ 0) (hwidth : 0 < width)
    (hle : width ≤ scale) : (roundingInterval d).holds scale
      ((4 * d.units * scale / width + 1) * width) = true := by
  have hlow := roundingInterval_lower hd
  have hupper := roundingInterval_upper d
  have hT := step_pos d
  have habove : 4 * d.units * scale < (4 * d.units * scale / width + 1) * width :=
    (Nat.div_lt_iff_lt_mul hwidth).mp (Nat.lt_succ_self _)
  have hbelow : 4 * d.units * scale / width * width ≤ 4 * d.units * scale :=
    Nat.div_mul_le_self _ _
  have hq : (0 : ℚ) < scale := by exact_mod_cast hwidth.trans_le hle
  rw [Interval.holds_iff _ (hwidth.trans_le hle)]
  apply Interval.contains_of_lt
  · rw [lt_div_iff₀ hq]
    have : (roundingInterval d).lower * scale ≤ 4 * d.units * scale :=
      Nat.mul_le_mul_right _ (by omega)
    exact_mod_cast this.trans_lt habove
  · rw [div_lt_iff₀ hq, hupper]
    have : scale ≤ step d * scale := Nat.le_mul_of_pos_left _ hT
    have : (4 * d.units * scale / width + 1) * width < (4 * d.units + 2 * step d) * scale := by
      linarith [hwidth.trans_le hle]
    exact_mod_cast this

/-- The finest grid has a decimal for every number that is not zero. -/
theorem onGrid_finest (tie : Tie) (hd : d.units ≠ 0) : (onGrid tie d (-324)).isSome = true := by
  have hwidth : Nat.pow 10 (-324 : ℤ).toNat * quartersPerOne = quartersPerOne := by
    rw [show (-324 : ℤ).toNat = 0 from rfl, Nat.pow_eq, pow_zero, one_mul]
  have hhigh := holds_above hd (show 0 < quartersPerOne by decide +kernel) quartersPerOne_le
  simp only [onGrid, hwidth, show (-(-324 : ℤ)).toNat = 324 from rfl]
  generalize Nat.pow 10 324 = scale at hhigh ⊢
  simp only [hhigh, Bool.and_true]
  split_ifs
  · rfl
  · rfl
  · cases tie <;> rfl
  · rfl

/-- The shortest decimal of a number rounds to it. -/
theorem contains_shortest (tie : Tie) (hd : d.units ≠ 0) :
    (roundingInterval d).Contains
      (decimalValue (shortest tie d).digits (shortest tie d).exponent * quartersPerOne) := by
  have hfinest : (-324 : ℤ) ∈ grids := by
    simp only [grids, List.mem_map, List.mem_range]
    exact ⟨633, by norm_num, by norm_num⟩
  have hsome : (grids.findSome? (onGrid tie d)).isSome = true := by
    rw [List.findSome?_isSome_iff]
    exact ⟨-324, hfinest, onGrid_finest tie hd⟩
  obtain ⟨s, hs⟩ := Option.isSome_iff_exists.mp hsome
  obtain ⟨exponent, -, he⟩ := List.exists_of_findSome?_eq_some hs
  rw [shortest, if_neg hd, hs, Option.getD_some]
  exact contains_of_onGrid he

/-! ## Reading back -/

theorem pow_length_le {n : ℕ} (h : n ≠ 0) : 10 ^ ((Nat.toDigits 10 n).length - 1) ≤ n := by
  by_contra hlt
  rw [not_le] at hlt
  rcases Nat.eq_zero_or_pos ((Nat.toDigits 10 n).length - 1) with hk | hk
  · rw [hk, pow_zero] at hlt
    omega
  · have := (Nat.length_toDigits_le_iff (by decide) hk).mpr hlt
    omega

theorem lt_pow_length (n : ℕ) : n < 10 ^ (Nat.toDigits 10 n).length :=
  (Nat.length_toDigits_le_iff (by decide) Nat.length_toDigits_pos).mp le_rfl

/-- A decimal is bounded by the powers of ten around its first digit. -/
theorem decimalValue_bounds {digits : ℕ} (h : digits ≠ 0) (exponent : ℤ) :
    (10 : ℚ) ^ ((Nat.toDigits 10 digits).length + exponent - 1) ≤ decimalValue digits exponent ∧
      decimalValue digits exponent < 10 ^ ((Nat.toDigits 10 digits).length + exponent) := by
  have hpos : (0 : ℚ) < 10 ^ exponent := by positivity
  have hlen := @Nat.length_toDigits_pos 10 digits
  have hl : (10 : ℚ) ^ ((Nat.toDigits 10 digits).length - 1) ≤ digits := by
    exact_mod_cast pow_length_le h
  have hu : (digits : ℚ) < 10 ^ (Nat.toDigits 10 digits).length := by
    exact_mod_cast lt_pow_length digits
  generalize (Nat.toDigits 10 digits).length = k at *
  have hk : (k : ℤ) + exponent - 1 = ((k - 1 : ℕ) : ℤ) + exponent := by omega
  rw [decimalValue, hk, zpow_add₀ (by norm_num), zpow_add₀ (by norm_num), zpow_natCast, zpow_natCast]
  exact ⟨mul_le_mul_of_nonneg_right hl hpos.le, mul_lt_mul_of_pos_right hu hpos⟩

theorem roundingInterval_lower_pos (hd : d.units ≠ 0) : 0 < (roundingInterval d).lower := by
  have hlow := roundingInterval_lower hd
  have hs := Binary64.significand_pos hd
  have hT := step_pos d
  have hu : step d ≤ d.units := by
    rw [units_eq]
    exact Nat.le_mul_of_pos_left _ hs
  split_ifs at hlow <;> omega

theorem roundingInterval_upper_lt (finite : d.isFinite = true) :
    (roundingInterval d).upper < 2 ^ 2102 := by
  have hs := d.significand_lt
  have he := Binary64.exponent_le finite
  have hT : step d ≤ 2 ^ 2045 := by
    unfold step
    exact Nat.pow_le_pow_right Nat.two_pos he
  rw [roundingInterval_upper, units_eq]
  rw [Binary64.hiddenBit_eq] at hs
  have hprod : d.significand.1 * step d ≤ 2 ^ 53 * 2 ^ 2045 := Nat.mul_le_mul (by omega) hT
  have hpow : (2 : ℕ) ^ 2102 = 2 ^ 57 * 2 ^ 2045 := by rw [← pow_add]
  rw [hpow]
  generalize (2 : ℕ) ^ 2045 = big at *
  omega

theorem quartersPerOne_eq : quartersPerOne = 4 * Binary64.one := by decide +kernel

theorem upper_bound_le : 2 ^ 2102 ≤ 10 ^ 310 * quartersPerOne := by decide +kernel

/-- Any decimal in the rounding interval of a number is read as the number. -/
theorem ofDecimal_of_contains (finite : d.isFinite = true) (hd : d.units ≠ 0) {digits : ℕ}
    (h : (roundingInterval d).Contains (decimalValue digits exponent * quartersPerOne)) :
    Binary64.ofDecimal d.negative digits exponent = d := by
  obtain ⟨hl, hu⟩ := h.bounds
  have hone : (1 : ℚ) ≤ (roundingInterval d).lower := by
    exact_mod_cast roundingInterval_lower_pos hd
  have hlt : ((roundingInterval d).upper : ℚ) < 10 ^ 310 * quartersPerOne := by
    exact_mod_cast (roundingInterval_upper_lt finite).trans_le upper_bound_le
  have hsmall : (quartersPerOne : ℚ) ≤ 10 ^ 324 := by
    have := quartersPerOne_le
    rw [Nat.pow_eq] at this
    exact_mod_cast this
  have hscaled : (4 * (digits * Nat.pow 10 exponent.toNat * Binary64.one : ℕ) /
      (Nat.pow 10 (-exponent).toNat : ℕ) : ℚ) = decimalValue digits exponent * quartersPerOne := by
    rw [← grid_value, quartersPerOne_eq]
    push_cast
    ring
  have hQ : (0 : ℚ) < quartersPerOne := by
    exact_mod_cast (show 0 < quartersPerOne by decide +kernel)
  have hdigits : digits ≠ 0 := by
    rintro rfl
    simp only [decimalValue, Nat.cast_zero, zero_mul] at hl
    linarith
  obtain ⟨hvl, hvu⟩ := decimalValue_bounds hdigits exponent
  have hmag := nearestMagnitude_of_contains finite hd (grid_scale_pos exponent) (hscaled ▸ h)
  have htop : ¬310 < ((Nat.toDigits 10 digits).length : ℤ) + exponent := by
    intro ht
    have hpow : (10 : ℚ) ^ 310 ≤ 10 ^ ((Nat.toDigits 10 digits).length + exponent - 1) := by
      rw [← zpow_natCast]
      exact zpow_le_zpow_right₀ (by norm_num) (by push_cast; omega)
    have := mul_le_mul_of_nonneg_right (hpow.trans hvl) hQ.le
    exact absurd (this.trans hu) (not_le.mpr hlt)
  have hbottom : ¬((Nat.toDigits 10 digits).length : ℤ) + exponent < -330 := by
    intro hb
    have hpow : (10 : ℚ) ^ ((Nat.toDigits 10 digits).length + exponent) ≤ ((10 : ℚ) ^ 324)⁻¹ := by
      rw [← zpow_natCast, ← zpow_neg]
      exact zpow_le_zpow_right₀ (by norm_num) (by push_cast; omega)
    have hlast : decimalValue digits exponent * quartersPerOne < 1 := calc
      decimalValue digits exponent * quartersPerOne < ((10 : ℚ) ^ 324)⁻¹ * quartersPerOne :=
        mul_lt_mul_of_pos_right (hvu.trans_le hpow) hQ
      _ ≤ ((10 : ℚ) ^ 324)⁻¹ * 10 ^ 324 := mul_le_mul_of_nonneg_left hsmall (by positivity)
      _ = 1 := inv_mul_cancel₀ (by positivity)
    exact absurd (hone.trans hl) (not_le.mpr hlast)
  simp only [Binary64.ofDecimal, if_neg hdigits, if_neg htop, if_neg hbottom, hmag]
  exact d.ofSignMagnitude_self

theorem magnitude_of_units_eq_zero (h : d.units = 0) : d.magnitude = 0 := by
  have hs : d.significand.1 = 0 := by
    by_contra hne
    have : 0 < d.units := by
      rw [units_eq]
      exact Nat.mul_pos (Nat.pos_of_ne_zero hne) (step_pos d)
    omega
  have he : d.significand.2 = 0 := by
    by_contra hne
    have hle := d.hiddenBit_le_significand (Nat.pos_of_ne_zero hne)
    rw [hs] at hle
    exact absurd hle (by decide)
  rw [d.magnitude_eq, hs, he, zero_mul, add_zero]

theorem shortest_digits_ne_zero (tie : Tie) (hd : d.units ≠ 0) : (shortest tie d).digits ≠ 0 := by
  intro hzero
  have hl := (contains_shortest tie hd).bounds.1
  rw [hzero, decimalValue, Nat.cast_zero, zero_mul, zero_mul] at hl
  have : (0 : ℚ) < (roundingInterval d).lower := by exact_mod_cast roundingInterval_lower_pos hd
  linarith

/-- Only zero is written with the digit zero alone, and without an exponent. -/
theorem shortest_exponent_of_digits_eq_zero (tie : Tie) (h : (shortest tie d).digits = 0) :
    (shortest tie d).exponent = 0 := by
  by_cases hd : d.units = 0
  · rw [shortest, if_pos hd]
  · exact absurd h (shortest_digits_ne_zero tie hd)

/-- Every spelling of the shortest decimal of a number is read as the number. -/
theorem ofDecimal_of_eq_shortest (finite : d.isFinite = true) (tie : Tie) {digits : ℕ}
    (h : decimalValue digits exponent =
      decimalValue (shortest tie d).digits (shortest tie d).exponent) :
    Binary64.ofDecimal d.negative digits exponent = d := by
  by_cases hd : d.units = 0
  · have hzero : digits = 0 := by
      rw [shortest, if_pos hd] at h
      have hpos : (10 : ℚ) ^ exponent ≠ 0 := by positivity
      simpa [decimalValue, hpos] using h
    have hself := d.ofSignMagnitude_self
    rw [magnitude_of_units_eq_zero hd] at hself
    simp only [Binary64.ofDecimal, if_pos hzero, hself]
  · exact ofDecimal_of_contains finite hd (h ▸ contains_shortest tie hd)

end Verdict.Decimal
