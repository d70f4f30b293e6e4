import Verdict.Proofs.Binary64.Integers
import Verdict.Proofs.Evaluation.Tree
import Verdict.Proofs.Payload.Rule

/-!
# Comparison of numbers

The orderings compare the nearest binary64 numbers, and so does equality unless both sides are
integers, which it compares exactly. So the six operators fit together, except on two different
integers that are rounded to the same number. One of these is larger than 2⁵³.
-/

namespace Verdict

namespace Scalar

/-- A number that evidence or a rule can hold: an integer of 64 signed bits or a finite decimal. -/
inductive IsNumber : Scalar → Prop
  | integer {i : ℤ} : fitsInt64 i = true → IsNumber (.integer i)
  | decimal {d : Binary64} : d.isFinite = true → IsNumber (.decimal d)

/-- Different integers that are rounded to the same number. -/
inductive Merged : Scalar → Scalar → Prop
  | integers {i j : ℤ} : i ≠ j → (Binary64.ofInt i).scaled = (Binary64.ofInt j).scaled →
      Merged (.integer i) (.integer j)

variable {a b : Scalar} {x y : Binary64}

theorem IsNumber.exists_toBinary64? (h : a.IsNumber) :
    ∃ x, a.toBinary64? = some x ∧ x.isNaN = false := by
  have notNaN : ∀ {x : Binary64}, x.isFinite = true → x.isNaN = false := by
    intro x hx
    simp only [Binary64.isFinite, Binary64.isNaN, decide_eq_true_eq, decide_eq_false_iff_not]
      at hx ⊢
    omega
  cases h with
  | @integer i hi =>
    obtain ⟨hlow, hhigh⟩ := fitsInt64_iff.mp hi
    have hsign : (Binary64.signBit : ℤ) < 2 ^ 65 := by decide
    exact ⟨_, rfl, notNaN (Binary64.isFinite_ofInt (by omega))⟩
  | decimal hd => exact ⟨_, rfl, notNaN hd⟩

theorem not_merged_decimal (a : Scalar) (d : Binary64) : ¬ a.Merged (.decimal d) := nofun

/-- Of two different integers that are rounded to the same number, one is larger than 2⁵³. -/
theorem Merged.exists_large (h : a.Merged b) :
    ∃ i : ℤ, (a = .integer i ∨ b = .integer i) ∧ 2 ^ 53 < i.natAbs := by
  cases h with
  | @integers i j hne heq =>
    by_contra hsmall
    push Not at hsmall
    exact hne (Binary64.scaled_ofInt_inj (hsmall i (.inl rfl)) (hsmall j (.inr rfl)) heq)

/-- Two numbers are the same value if they are the same binary64 number, as long as they are not
different integers. -/
theorem sameValue_iff (ha : a.toBinary64? = some x) (hb : b.toBinary64? = some y)
    (hx : x.isNaN = false) (hy : y.isNaN = false) :
    a.sameValue b = true ↔ x.scaled = y.scaled ∧ ¬ a.Merged b := by
  have hequal : x.equal y = true ↔ x.scaled = y.scaled := by simp [Binary64.equal, hx, hy]
  cases a with
  | boolean | text => cases ha
  | decimal d =>
    have hmerged : ¬ (decimal d).Merged b := nofun
    cases b with
    | boolean | text => cases hb
    | _ => simp [sameValue, ha, hb, hequal, hmerged]
  | integer i =>
    cases b with
    | boolean | text => cases hb
    | decimal d => simp [sameValue, ha, hb, hequal, not_merged_decimal]
    | integer j =>
      cases ha
      cases hb
      simp only [sameValue, decide_eq_true_eq]
      constructor
      · rintro rfl
        exact ⟨rfl, fun h => by cases h; contradiction⟩
      · rintro ⟨heq, hmerged⟩
        by_contra hne
        exact hmerged (.integers hne heq)

end Scalar

namespace Operator

/-- The operator says yes. -/
def Holds (o : Operator) (field : String) (actual literal : Scalar) : Prop :=
  o.apply field actual literal = .ok true

instance (o : Operator) (field : String) (actual literal : Scalar) :
    Decidable (o.Holds field actual literal) :=
  inferInstanceAs (Decidable (_ = _))

/-- The relation of numbers that the operator asks for. -/
def Relates : Operator → ℤ → ℤ → Prop
  | greater, m, n => n < m
  | less, m, n => m < n
  | atLeast, m, n => n ≤ m
  | atMost, m, n => m ≤ n
  | equal, m, n => m = n
  | notEqual, m, n => m ≠ n

/-- The operators fit together on two scalars. -/
structure Consistent (field : String) (actual literal : Scalar) : Prop where
  one : ∃! o, o ∈ [less, equal, greater] ∧ Holds o field actual literal
  atMost_iff : atMost.Holds field actual literal ↔
    less.Holds field actual literal ∨ equal.Holds field actual literal
  atLeast_iff : atLeast.Holds field actual literal ↔
    greater.Holds field actual literal ∨ equal.Holds field actual literal
  notEqual_iff : notEqual.Holds field actual literal ↔ ¬ equal.Holds field actual literal

variable {o : Operator} {field : String} {actual literal : Scalar}

theorem notEqual_holds_iff :
    notEqual.Holds field actual literal ↔ ¬ equal.Holds field actual literal := by
  simp [Holds, apply]

/-- Operators that ask for relations of the same two numbers fit together. -/
theorem consistent_of_relates {m n : ℤ}
    (h : ∀ o : Operator, o.Holds field actual literal ↔ o.Relates m n) :
    Consistent field actual literal where
  one := by
    simp only [h]
    rcases lt_trichotomy m n with hlt | heq | hgt
    · exact ⟨less, ⟨by simp, hlt⟩, by simp [Relates, hlt.ne, hlt.not_gt]⟩
    · exact ⟨equal, ⟨by simp, heq⟩, by simp [Relates, heq]⟩
    · exact ⟨greater, ⟨by simp, hgt⟩, by simp [Relates, hgt.ne', hgt.not_gt]⟩
  atMost_iff := by simp only [h, Relates, le_iff_lt_or_eq]
  atLeast_iff := by simp only [h, Relates, le_iff_lt_or_eq, eq_comm]
  notEqual_iff := notEqual_holds_iff

section Numbers

variable {x y : Binary64} (ha : actual.toBinary64? = some x) (hl : literal.toBinary64? = some y)

include ha hl

theorem exists_apply (o : Operator) (field : String) :
    ∃ b, o.apply field actual literal = .ok b := by
  have hnumber : literal.toBinary64?.isSome = true := by rw [hl]; rfl
  rcases o.apply_cases field actual fun _ => hnumber with hok | ⟨-, hnone, -⟩
  · exact hok
  · rw [ha] at hnone
    cases hnone

variable (hx : x.isNaN = false) (hy : y.isNaN = false)

include hx hy

/-- An ordering asks for a relation of the nearest binary64 numbers. -/
theorem holds_iff_of_isOrdering (ho : o.IsOrdering) :
    o.Holds field actual literal ↔ o.Relates x.scaled y.scaled := by
  cases o with
  | equal => exact absurd rfl ho.1
  | notEqual => exact absurd rfl ho.2
  | _ => simp [Holds, apply, numbers, ha, hl, Except.map, Binary64.less, Binary64.atMost, hx, hy,
      Relates]

theorem equal_holds_iff : equal.Holds field actual literal ↔
    x.scaled = y.scaled ∧ ¬ actual.Merged literal := by
  simp [Holds, apply, Scalar.sameValue_iff ha hl hx hy]

/-- Unless they are different integers that are rounded to the same number, all operators ask for
relations of the same two numbers. -/
theorem holds_iff_of_not_merged (h : ¬ actual.Merged literal) (o : Operator) :
    o.Holds field actual literal ↔ o.Relates x.scaled y.scaled := by
  cases o with
  | equal => simp [equal_holds_iff ha hl hx hy, Relates, h]
  | notEqual => simp [notEqual_holds_iff, equal_holds_iff ha hl hx hy, Relates, h]
  | _ => exact holds_iff_of_isOrdering ha hl hx hy (by decide)

theorem holds_iff_of_merged (h : actual.Merged literal) (o : Operator) :
    o.Holds field actual literal ↔ o ∈ [atLeast, atMost, notEqual] := by
  have heq : x.scaled = y.scaled := by
    cases h with
    | integers _ heq =>
      cases ha
      cases hl
      exact heq
  cases o with
  | equal => simp [equal_holds_iff ha hl hx hy, h]
  | notEqual => simp [notEqual_holds_iff, equal_holds_iff ha hl hx hy, h]
  | _ =>
    rw [holds_iff_of_isOrdering ha hl hx hy (by decide), heq]
    simp [Relates]

end Numbers

/-- Every operator says yes or no on two numbers, and the operators fit together unless the numbers
are different integers that are rounded to the same number. Then the two are neither equal nor in
order, but each is at least and at most the other. -/
theorem compare_numbers (field : String) (ha : actual.IsNumber) (hl : literal.IsNumber) :
    (∀ o : Operator, ∃ b, o.apply field actual literal = .ok b) ∧
    (notEqual.Holds field actual literal ↔ ¬ equal.Holds field actual literal) ∧
    (Consistent field actual literal ↔ ¬ actual.Merged literal) ∧
    (actual.Merged literal →
      (∃ i : ℤ, (actual = .integer i ∨ literal = .integer i) ∧ 2 ^ 53 < i.natAbs) ∧
      ∀ o : Operator, o.Holds field actual literal ↔ o ∈ [atLeast, atMost, notEqual]) := by
  obtain ⟨x, hax, hx⟩ := ha.exists_toBinary64?
  obtain ⟨y, hly, hy⟩ := hl.exists_toBinary64?
  have hmerged : actual.Merged literal → ∀ o : Operator,
      o.Holds field actual literal ↔ o ∈ [atLeast, atMost, notEqual] :=
    holds_iff_of_merged hax hly hx hy
  refine ⟨fun o => exists_apply hax hly o field, notEqual_holds_iff, ⟨fun h hm => ?_, fun hm => ?_⟩,
    fun hm => ⟨hm.exists_large, hmerged hm⟩⟩
  · obtain ⟨o, ⟨ho, hholds⟩, -⟩ := h.one
    rw [hmerged hm] at hholds
    revert ho hholds
    cases o <;> decide
  · exact consistent_of_relates (holds_iff_of_not_merged hax hly hx hy hm)

/-- The integer 2⁵³ + 1 is at least and at most the integer 2⁵³, and not equal to it. It is equal to
the decimal of that value, with which the operators fit together. -/
theorem compare_numbers_large :
    let large : Scalar := .integer (2 ^ 53 + 1)
    let rounded : Scalar := .decimal ⟨0x4340000000000000⟩
    (large.IsNumber ∧ large.Merged (.integer (2 ^ 53)) ∧
      ∀ o : Operator, o.Holds "count" large (.integer (2 ^ 53)) ↔ o ∈ [atLeast, atMost, notEqual]) ∧
    rounded.IsNumber ∧ Consistent "count" large rounded ∧ equal.Holds "count" large rounded := by
  intro large rounded
  have hlarge : large.IsNumber := .integer (by decide)
  have hpower : (Scalar.integer (2 ^ 53)).IsNumber := .integer (by decide)
  have hrounded : rounded.IsNumber := .decimal (by decide)
  have hmerged : large.Merged (.integer (2 ^ 53)) := .integers (by decide) (by decide +kernel)
  obtain ⟨-, -, -, hall⟩ := compare_numbers "count" hlarge hpower
  obtain ⟨-, -, hfit, -⟩ := compare_numbers "count" hlarge hrounded
  exact ⟨⟨hlarge, hmerged, (hall hmerged).2⟩, hrounded, hfit.mpr (Scalar.not_merged_decimal _ _),
    by decide +kernel⟩

theorem not_forall_consistent : ¬ ∀ (field : String) (actual literal : Scalar),
    actual.IsNumber → literal.IsNumber → Consistent field actual literal := by
  intro h
  have hlarge : Consistent "count" (.integer (2 ^ 53 + 1)) (.integer (2 ^ 53)) :=
    h _ _ _ (.integer (by decide)) (.integer (by decide))
  obtain ⟨o, ⟨ho, hholds⟩, -⟩ := hlarge.one
  revert ho hholds
  cases o <;> decide +kernel

end Operator
end Verdict
