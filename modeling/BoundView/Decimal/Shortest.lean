import BoundView.Binary64

/-!
# The shortest decimal that reads back

Every binary64 number is the nearest one to an interval of reals; the ends belong to it when its
mantissa is even.  `shortest` gives the decimal with the fewest digits in that interval, and of
several with that many digits the nearest to the number.  All comparisons are exact: a grid of
decimals meets the interval only if one of the number's two neighbours on the grid lies in it.
-/

namespace BoundView

/-- The number `digits · 10 ^ exponent`. -/
structure Decimal where
  digits : Nat
  exponent : Int
  deriving DecidableEq, Repr

namespace Decimal

/-- How many digits a positive number has. -/
def width (n : Nat) : Nat :=
  (Nat.toDigits 10 n).length

/-- The greatest `e` with `10 ^ e ≤ num / den`, for positive `num` and `den`. -/
def floorLog10 (num den : Nat) : Int :=
  if den ≤ num then (width (num / den) : Int) - 1
  else -(width ((den + num - 1) / num - 1) : Int)

/-- An interval of rationals around `value`, all over the denominator `den`. -/
structure Interval where
  lower : Nat
  value : Nat
  upper : Nat
  den : Nat
  closed : Bool

/-- The reals that round to `mantissa · 2 ^ exponent`.  Below a power of two the numbers lie twice
as close. -/
def Interval.ofScaled (mantissa : Nat) (exponent : Int) : Interval :=
  -- In quarters of the last place: half a place is two of them.
  let below := if mantissa = twoTo 52 ∧ Binary64.minExponent < exponent then 1 else 2
  let scale := twoTo (exponent - 2).toNat
  { lower := (4 * mantissa - below) * scale
    value := 4 * mantissa * scale
    upper := (4 * mantissa + 2) * scale
    den := twoTo (2 - exponent).toNat
    closed := mantissa % 2 = 0 }

/-- The neighbour of the value on the grid of multiples of `10 ^ grid` that lies in the interval;
of two the nearer, and of two equally near the even one. -/
def Interval.onGrid? (i : Interval) (grid : Int) : Option Decimal :=
  -- One of the two powers is one.
  let up := tenTo (-grid).toNat
  let den := i.den * tenTo grid.toNat
  let inside (k : Nat) : Bool :=
    if i.closed then i.lower * up ≤ k * den && k * den ≤ i.upper * up
    else i.lower * up < k * den && k * den < i.upper * up
  let floor := i.value * up / den
  let rest := i.value * up % den
  match inside floor, inside (floor + 1) with
  | true, true =>
    -- Both neighbours lie in the interval.
    let upward := if 2 * rest = den then floor % 2 = 1 else den < 2 * rest
    some ⟨if upward then floor + 1 else floor, grid⟩
  | true, false => some ⟨floor, grid⟩
  | false, true => some ⟨floor + 1, grid⟩
  | false, false => none

/-- Seventeen digits always suffice. -/
def maxDigits : Nat := 17

/-- The shortest decimal for `mantissa · 2 ^ exponent`. -/
def shortest (mantissa : Nat) (exponent : Int) : Decimal :=
  if mantissa = 0 then ⟨0, 0⟩
  else
    let i := Interval.ofScaled mantissa exponent
    let top := floorLog10 i.value i.den
    let found := (List.range maxDigits).findSome? fun (n : Nat) => i.onGrid? (top - (n : Int))
    -- The last grid is finer than the interval is wide, so one is always found.
    found.getD ⟨i.value * tenTo (maxDigits - 1 - top).toNat / i.den, top - maxDigits + 1⟩

end Decimal

end BoundView
