import Verdict.Decimal.Shortest

/-!
# Writing decimals

A decimal is written either positionally or with an exponent; a `Layout` says where each applies
and how whole numbers look. The digits are always the shortest that read back.
-/

namespace Verdict.Decimal

/-- The decisions a notation makes about decimals. -/
structure Layout where
  /-- Whether a value whose first digit stands at `10 ^ e` is written without an exponent. -/
  positional : Int → Bool
  /-- Whether a whole number keeps a point and one zero after it. -/
  pointZero : Bool
  /-- The choice between two equally near shortest decimals. -/
  tie : Tie

/-- The layout of JSON texts: an exponent below 10⁻⁵ and from 10¹⁶ on, and a point always. -/
def Layout.json : Layout where
  positional e := -5 ≤ e && e ≤ 15
  pointZero := true
  tie := .toEven

/-- The layout of messages: never an exponent, and whole numbers bare. -/
def Layout.plain : Layout where
  positional _ := true
  pointZero := false
  tie := .away

/-- Digits `ds` with the last at `10 ^ exponent`, written out in full. -/
def positionalText (pointZero : Bool) (ds : List Char) (exponent : Int) : List Char :=
  if 0 ≤ exponent then
    ds ++ List.replicate exponent.toNat '0' ++ (if pointZero then ['.', '0'] else [])
  else
    let places := (-exponent).toNat
    let padded := List.replicate (places + 1 - ds.length) '0' ++ ds
    padded.take (padded.length - places) ++ '.' :: padded.drop (padded.length - places)

/-- Digits with the first at `10 ^ exponent`, written with that exponent and its sign. -/
def exponentText (ds : List Char) (exponent : Int) : List Char :=
  let mantissa := match ds with
    | [] => []
    | [c] => [c]
    | c :: rest => c :: '.' :: rest
  mantissa ++ 'e' :: (if exponent < 0 then '-' else '+') :: Nat.toDigits 10 exponent.natAbs

/-- A finite number in the given layout. -/
def Layout.write (l : Layout) (d : Binary64) : List Char :=
  let s := shortest l.tie d
  let ds := Nat.toDigits 10 s.digits
  let first := s.exponent + (ds.length : Int) - 1
  let body := if l.positional first then positionalText l.pointZero ds s.exponent
    else exponentText ds first
  if d.negative then '-' :: body else body

/-- The text of any binary64 number in messages. -/
def plainText (d : Binary64) : String :=
  if d.isNaN then "NaN"
  else if d.isInfinite then (if d.negative then "-inf" else "inf")
  else String.ofList (Layout.plain.write d)

end Verdict.Decimal
