import BoundView.Decimal.Reader
import BoundView.Json.Basic

/-!
# The value of a number literal

An integer literal of the 64-bit ranges is exact.  Any other literal is computed in binary64: its
leading digits, as many as a 64-bit word holds, are scaled by a power of ten in one rounded
operation (in several for a very small number).  The literal `-0` is the binary64 number -0.0.
-/

namespace BoundView.Json

/-- A number literal in its parts; `fraction` and `exponent` hold what follows the point and the
exponent mark. -/
structure Literal where
  negative : Bool
  whole : List Char
  fraction : Option (List Char)
  exponent : Option (Bool × List Char)
  deriving DecidableEq, Repr

/-- Append digits to `n` while the result fits a 64-bit word; the digits left over come back. -/
def appendDigits (n : Nat) : List Char → Nat × List Char
  | [] => (n, [])
  | c :: cs =>
    let next := 10 * n + Decimal.digitValue c
    if next < twoTo 64 then appendDigits next cs else (n, c :: cs)

/-- The greatest power of ten that is a finite number. -/
def maxPower : Nat := 308

/-- `x · 10 ^ e` in binary64 arithmetic, `none` when it is too large. -/
def scale? (x : Float) (e : Int) : Option Float :=
  if x == 0 then some x
  else if maxPower < e then none
  else if 0 ≤ e then
    let y := x * Binary64.powerOfTen e.toNat
    if Binary64.isFinite y then some y else none
  else if -(maxPower : Int) ≤ e then some (x / Binary64.powerOfTen (-e).toNat)
  else scale? (x / Binary64.powerOfTen maxPower) (e + maxPower)
termination_by (-e).toNat
decreasing_by simp only [maxPower] at *; omega

namespace Literal

/-- The value of a literal, `none` when it is too large for a binary64 number. -/
def value? (l : Literal) : Option Number :=
  let (whole, dropped) := appendDigits 0 l.whole
  let inexact (e : Int) (significand : Nat) :=
    (scale? (Binary64.ofNat significand) e).map fun x => Number.float (if l.negative then -x else x)
  match l.fraction, l.exponent with
  | none, none =>
    -- What does not fit a word is counted, not read.
    if dropped ≠ [] then inexact dropped.length whole
    else if !l.negative then some (.int whole)
    -- Zero keeps its sign, and what is below the 64-bit range is no integer either.
    else if whole = 0 ∨ twoTo 63 < whole then some (.float (-(Binary64.ofNat whole)))
    else some (.int (-(whole : Int)))
  | fraction, exponent =>
    let digits := fraction.getD []
    let (significand, ignored) := appendDigits whole digits
    let places : Int := digits.length - ignored.length
    let power : Int :=
      match exponent with
      | none => 0
      | some (negative, digits) =>
        if negative then -(Decimal.digitsValue digits : Int) else Decimal.digitsValue digits
    inexact (dropped.length - places + power) significand

end Literal

end BoundView.Json
