/-!
# Binary64 numbers

A decimal value is held as the 64 bits of its IEEE 754 binary64 form. Every finite value is a whole
number of *units* of 2⁻¹⁰⁷⁴, so comparison is comparison of integers. The infinities continue the
scale by one step beyond the largest finite value, which makes the same comparison right for them.
-/

namespace Verdict

/-- A binary64 number, given by its bit pattern. -/
structure Binary64 where
  bits : UInt64
  deriving DecidableEq, Repr, Inhabited

namespace Binary64

/-- The bit that carries the sign. -/
def signBit : Nat := 0x8000000000000000

/-- The bit above the fraction, which every normal significand has. -/
def hiddenBit : Nat := 0x10000000000000

/-- The bit pattern of positive infinity; larger magnitudes are not numbers. -/
def infinityBits : Nat := 0x7ff0000000000000

/-- The number with the given sign and the given magnitude bits. -/
def ofSignMagnitude (negative : Bool) (magnitude : Nat) : Binary64 :=
  ⟨UInt64.ofNat (if negative then signBit + magnitude else magnitude)⟩

/-- Whether the sign bit is set; it is set in -0.0 as well. -/
def negative (d : Binary64) : Bool := signBit ≤ d.bits.toNat

/-- The bits without the sign. -/
def magnitude (d : Binary64) : Nat := d.bits.toNat % signBit

def isNaN (d : Binary64) : Bool := infinityBits < d.magnitude

def isInfinite (d : Binary64) : Bool := d.magnitude = infinityBits

def isFinite (d : Binary64) : Bool := d.magnitude < infinityBits

/-- The significand, hidden bit included, and the power of two it is scaled by, in units. -/
def significand (d : Binary64) : Nat × Nat :=
  let exponent := d.magnitude / hiddenBit
  let fraction := d.magnitude % hiddenBit
  if exponent = 0 then (fraction, 0) else (hiddenBit + fraction, exponent - 1)

/-- The distance from zero in units of 2⁻¹⁰⁷⁴. -/
def units (d : Binary64) : Nat :=
  d.significand.1 * Nat.pow 2 d.significand.2

/-- The signed value in units of 2⁻¹⁰⁷⁴. -/
def scaled (d : Binary64) : Int :=
  if d.negative then -(d.units : Int) else d.units

/-- Equality of values: both zeros are equal, and what is not a number equals nothing. -/
def equal (a b : Binary64) : Bool :=
  !a.isNaN && !b.isNaN && a.scaled = b.scaled

/-- Order of values; false as soon as one side is not a number. -/
def less (a b : Binary64) : Bool :=
  !a.isNaN && !b.isNaN && a.scaled < b.scaled

/-- Order or equality of values; false as soon as one side is not a number. -/
def atMost (a b : Binary64) : Bool :=
  !a.isNaN && !b.isNaN && a.scaled ≤ b.scaled

end Binary64
end Verdict
