import Verdict.Binary64.Basic

/-!
# Rounding to binary64

An exact value is rounded to the nearest binary64 number, an exact tie going to the even neighbour.
Working on magnitude bits makes the carry into the next power of two automatic: the magnitudes of
consecutive numbers are consecutive.
-/

namespace Verdict.Binary64

/-- The quotient rounded to the nearest whole number, a tie going to the even one. -/
def divideToEven (num den : Nat) : Nat :=
  let q := num / den
  let twice := 2 * (num % den)
  if twice < den then q
  else if den < twice then q + 1
  else if q % 2 = 0 then q else q + 1

/-- The magnitude bits nearest to `num / den` units; infinity from the overflow bound on. -/
def nearestMagnitude (num den : Nat) : Nat :=
  let shift := (num / den).log2 - 52
  min infinityBits (divideToEven num (den * Nat.pow 2 shift) + shift * hiddenBit)

/-- One in units of 2⁻¹⁰⁷⁴. -/
def one : Nat := Nat.pow 2 1074

/-- The number nearest to an integer. -/
def ofInt (i : Int) : Binary64 :=
  ofSignMagnitude (i < 0) (nearestMagnitude (i.natAbs * one) 1)

/-- The number nearest to `digits * 10 ^ exponent`, with the given sign. Far outside the range the
answer is known from the count of digits alone. -/
def ofDecimal (negative : Bool) (digits : Nat) (exponent : Int) : Binary64 :=
  let top := ((Nat.toDigits 10 digits).length : Int) + exponent
  ofSignMagnitude negative <|
    if digits = 0 then 0
    else if 310 < top then infinityBits
    else if top < -330 then 0
    else nearestMagnitude (digits * Nat.pow 10 exponent.toNat * one) (Nat.pow 10 (-exponent).toNat)

end Verdict.Binary64
