import BoundView.Decimal.Shortest

/-!
# Writing binary64 numbers

A number is written with its shortest decimal.  A `Layout` fixes what is left open: which numbers
are written without an exponent, and whether an integral one keeps a fraction.
-/

namespace BoundView.Decimal

structure Layout where
  /-- Whether a number whose first digit stands for `10 ^ e` is written without an exponent. -/
  positional : Int → Bool
  /-- Whether an integral number ends in `.0`. -/
  pointZero : Bool

/-- No exponent and no needless fraction: `1`, `0.00001`, `1000000000000000000000`. -/
def plain : Layout where
  positional _ := true
  pointZero := false

namespace Layout

def sign (negative : Bool) : String :=
  if negative then "-" else ""

/-- Digits with the point where it belongs. -/
def writePositional (layout : Layout) (digits : List Char) (exponent : Int) : String :=
  let zeros (n : Int) := List.replicate n.toNat '0'
  let whole : Int := digits.length + exponent
  if 0 ≤ exponent then
    String.ofList (digits ++ zeros exponent) ++ if layout.pointZero then ".0" else ""
  else if 0 < whole then
    String.ofList (digits.take whole.toNat ++ ('.' :: digits.drop whole.toNat))
  else
    -- All digits are behind the point.
    String.ofList ('0' :: '.' :: (zeros (-whole) ++ digits))

/-- One digit before the point, then the signed power of ten. -/
def writeScientific (digits : List Char) (power : Int) : String :=
  let fraction := if digits.length ≤ 1 then [] else '.' :: digits.drop 1
  String.ofList (digits.take 1 ++ fraction)
    ++ (if power < 0 then "e-" else "e+") ++ toString power.natAbs

/-- A digit string less its final zeros, and how many they were. -/
def trimZeros (digits : List Char) : List Char × Nat :=
  let kept := (digits.reverse.dropWhile (· == '0')).reverse
  (kept, digits.length - kept.length)

def writeDecimal (layout : Layout) (d : Decimal) : String :=
  if d.digits = 0 then layout.writePositional ['0'] 0
  else
    let (digits, zeros) := trimZeros (Nat.toDigits 10 d.digits)
    let exponent := d.exponent + zeros
    let power := exponent + digits.length - 1
    if layout.positional power then layout.writePositional digits exponent
    else writeScientific digits power

/-- The text of a number. -/
def write (layout : Layout) (x : Float) : String :=
  match Binary64.read x with
  | .nan => "NaN"
  | .infinite negative => sign negative ++ "inf"
  | .finite negative m q => sign negative ++ layout.writeDecimal (shortest m q)

end Layout

end BoundView.Decimal
