import BoundView.Power

/-!
# Binary64 numbers as exact rationals

A finite binary64 number is `± m · 2 ^ q`.  `read` takes a number apart, `nearest` rounds a rational
to the closest number (a half goes to the even neighbour), and what lies between the two is exact
arithmetic on natural numbers: remainders, integrality, truncation.
-/

namespace BoundView.Binary64

/-- What the bits of a number stand for; a finite one is `± mantissa · 2 ^ exponent`. -/
inductive Reading where
  | nan
  | infinite (negative : Bool)
  | finite (negative : Bool) (mantissa : Nat) (exponent : Int)
  deriving DecidableEq, Repr

/-- The least exponent of a finite number, that of the subnormal ones. -/
def minExponent : Int := -1074

def read (x : Float) : Reading :=
  let bits := x.toBits.toNat
  let negative := bits / twoTo 63 == 1
  let exponent : Nat := bits / twoTo 52 % twoTo 11
  let fraction : Nat := bits % twoTo 52
  if exponent = 2047 then
    if fraction = 0 then .infinite negative else .nan
  else if exponent = 0 then
    .finite negative fraction minExponent
  else
    -- The leading bit of a normal number is not stored.
    .finite negative (twoTo 52 + fraction) ((exponent : Int) + minExponent - 1)

/-- The quotient rounded to the nearest integer, a half to the even one. -/
def roundDiv (num den : Nat) : Nat :=
  let quotient := num / den
  let twice := 2 * (num % den)
  if twice < den then quotient
  else if den < twice then quotient + 1
  else quotient + quotient % 2

/-- The number `± mantissa · 2 ^ exponent`, for `mantissa ≤ 2 ^ 53` and an exponent from
`minExponent` on that leaves the mantissa at least 53 bits unless it is `minExponent`; infinite
when it is too large.  A mantissa of `2 ^ 53` carries into the exponent field by itself. -/
def ofScaled (negative : Bool) (mantissa : Nat) (exponent : Int) : Float :=
  let magnitude := (exponent - minExponent).toNat * twoTo 52 + mantissa
  let bounded := if 2047 * twoTo 52 ≤ magnitude then 2047 * twoTo 52 else magnitude
  Float.ofBits (UInt64.ofNat (if negative then twoTo 63 + bounded else bounded))

/-- The greatest `e` with `2 ^ e ≤ num / den`, for positive `num` and `den`. -/
def floorLog2 (num den : Nat) : Int :=
  -- The logarithm of a quotient is the difference of the logarithms or one less.
  let guess : Int := (num.log2 : Int) - den.log2
  let reached :=
    if 0 ≤ guess then den * twoTo guess.toNat ≤ num else den ≤ num * twoTo (-guess).toNat
  if reached then guess else guess - 1

/-- The number nearest to `± num / den`. -/
def nearest (negative : Bool) (num den : Nat) : Float :=
  if num = 0 then ofScaled negative 0 minExponent
  else
    -- The mantissa gets 53 bits, or fewer where the least exponent does not leave as many.
    let exponent := max minExponent (floorLog2 num den - 52)
    let mantissa :=
      if 0 ≤ exponent then roundDiv num (den * twoTo exponent.toNat)
      else roundDiv (num * twoTo (-exponent).toNat) den
    ofScaled negative mantissa exponent

/-- The number nearest to an integer. -/
def ofInt (n : Int) : Float :=
  nearest (decide (n < 0)) n.natAbs 1

def ofNat (n : Nat) : Float :=
  nearest false n 1

/-- The number nearest to `10 ^ n`. -/
def powerOfTen (n : Nat) : Float :=
  ofNat (tenTo n)

/-- The integer that the number is, if it is one. -/
def integer? (x : Float) : Option Int :=
  match read x with
  | .finite negative m q =>
    let magnitude? :=
      if 0 ≤ q then some (m * twoTo q.toNat)
      else if m % twoTo (-q).toNat = 0 then some (m / twoTo (-q).toNat)
      else none
    magnitude?.map fun n => if negative then -(n : Int) else n
  | _ => none

/-- The remainder of a division that rounds its quotient toward zero; it is exact and has the sign
of the dividend.  An infinite divisor leaves the dividend as it is. -/
def remainder (x y : Float) : Float :=
  match read x, read y with
  | .finite negative m p, .finite _ n q =>
    if n = 0 then x / y
    else
      let e := min p q
      -- Over the smaller exponent both numbers are integers.
      let r := m * twoTo (p - e).toNat % (n * twoTo (q - e).toNat)
      if 0 ≤ e then nearest negative (r * twoTo e.toNat) 1
      else nearest negative r (twoTo (-e).toNat)
  | .finite _ _ _, .infinite _ => x
  | _, _ => Float.ofBits 0x7ff8000000000000

def isFinite (x : Float) : Bool :=
  match read x with
  | .finite _ _ _ => true
  | _ => false

def isNaN (x : Float) : Bool :=
  match read x with
  | .nan => true
  | _ => false

end BoundView.Binary64
