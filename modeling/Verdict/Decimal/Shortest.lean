import Verdict.Binary64.Basic

/-!
# The shortest decimal that reads back

Among the decimals that round to a given binary64 number, the one with the coarsest last place is
chosen, and of two such the nearer. The search goes from coarse grids of powers of ten to fine
ones; on each grid only the two neighbours of the exact value can be candidates.
-/

namespace Verdict.Decimal

/-- A decimal with digits `digits` and the last of them at `10 ^ exponent`. -/
structure Scientific where
  digits : Nat
  exponent : Int
  deriving DecidableEq, Repr

/-- Which of two decimals is chosen when the exact value lies midway between them. -/
inductive Tie where
  | toEven
  | away
  deriving DecidableEq, Repr

/-- Quarter units per one. -/
def quartersPerOne : Nat := Nat.pow 2 1076

/-- The open or closed interval of values that round to a number, in quarter units. -/
structure Interval where
  lower : Nat
  upper : Nat
  closed : Bool

/-- The values that round to a finite number: half-way to each neighbour, ends included exactly
when the significand is even. Below a power of two the lower neighbour is twice as near. -/
def roundingInterval (d : Binary64) : Interval :=
  let (m, e) := d.significand
  let half := 2 * Nat.pow 2 e
  let below := if m = Binary64.hiddenBit ∧ 0 < e then Nat.pow 2 e else half
  ⟨4 * d.units - below, 4 * d.units + half, m % 2 = 0⟩

/-- Whether `value / scale` quarter units lie in the interval. -/
def Interval.holds (r : Interval) (scale value : Nat) : Bool :=
  if r.closed then r.lower * scale ≤ value && value ≤ r.upper * scale
  else r.lower * scale < value && value < r.upper * scale

/-- The neighbour of the exact value on the grid of multiples of `10 ^ exponent` that lies in the
interval; the nearer one if both do. -/
def onGrid (tie : Tie) (d : Binary64) (exponent : Int) : Option Scientific :=
  let scale := Nat.pow 10 (-exponent).toNat
  let step := Nat.pow 10 exponent.toNat * quartersPerOne
  let value := 4 * d.units * scale
  let c := value / step
  let r := roundingInterval d
  let low := r.holds scale (c * step)
  let high := r.holds scale ((c + 1) * step)
  if low && high then
    let twice := 2 * (value % step)
    if twice < step then some ⟨c, exponent⟩
    else if step < twice then some ⟨c + 1, exponent⟩
    else match tie with
      | .toEven => some ⟨c + c % 2, exponent⟩
      | .away => some ⟨c + 1, exponent⟩
  else if low then some ⟨c, exponent⟩
  else if high then some ⟨c + 1, exponent⟩
  else none

/-- The grids from coarse to fine: the last holds every binary64 number's shortest decimal. -/
def grids : List Int :=
  (List.range 634).map fun (k : Nat) => (309 : Int) - k

/-- The shortest decimal that reads back as the distance of a finite number from zero. -/
def shortest (tie : Tie) (d : Binary64) : Scientific :=
  if d.units = 0 then ⟨0, 0⟩
  else ((grids.findSome? (onGrid tie d)).getD ⟨0, 0⟩)

end Verdict.Decimal
