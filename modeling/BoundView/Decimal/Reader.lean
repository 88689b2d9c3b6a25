import BoundView.Binary64

/-!
# Reading decimal text

`read?` reads a decimal literal as the nearest binary64 number: a sign, digits with a point at
either end or between them, and a power of ten.  `inf`, `infinity` and `nan` are read in any case.
-/

namespace BoundView.Decimal

def digitValue (c : Char) : Nat :=
  c.toNat - '0'.toNat

/-- The number that a string of digits writes. -/
def digitsValue (digits : List Char) : Nat :=
  digits.foldl (fun n c => 10 * n + digitValue c) 0

/-- The number nearest to `± m · 10 ^ e`.  Powers far outside the range of finite numbers are not
computed. -/
def ofScientific (negative : Bool) (m : Nat) (e : Int) : Float :=
  let top := e + (Nat.toDigits 10 m).length
  if m = 0 ∨ top < -400 then Binary64.nearest negative 0 1
  else if 400 < top then Binary64.ofScaled negative (twoTo 53) 1024
  else if 0 ≤ e then Binary64.nearest negative (m * tenTo e.toNat) 1
  else Binary64.nearest negative m (tenTo (-e).toNat)

/-- A signed power of ten after its mark, taking all of the text. -/
def exponent? (cs : List Char) : Option Int :=
  let (negative, digits) :=
    match cs with
    | '-' :: rest => (true, rest)
    | '+' :: rest => (false, rest)
    | _ => (false, cs)
  if digits.isEmpty || !digits.all Char.isDigit then none
  else some (if negative then -(digitsValue digits : Int) else digitsValue digits)

/-- A decimal literal without its sign. -/
def unsigned? (negative : Bool) (cs : List Char) : Option Float :=
  let whole := cs.takeWhile Char.isDigit
  let afterWhole := cs.dropWhile Char.isDigit
  let (fraction, afterFraction) :=
    match afterWhole with
    | '.' :: rest => (rest.takeWhile Char.isDigit, rest.dropWhile Char.isDigit)
    | _ => ([], afterWhole)
  if whole.isEmpty && fraction.isEmpty then none
  else
    -- The point only moves the exponent.
    let m := digitsValue (whole ++ fraction)
    let finish (e : Int) := some (ofScientific negative m (e - fraction.length))
    match afterFraction with
    | [] => finish 0
    | c :: rest => if c = 'e' ∨ c = 'E' then (exponent? rest).bind finish else none

def read? (text : String) : Option Float :=
  let (negative, body) :=
    match text.toList with
    | '-' :: rest => (true, rest)
    | '+' :: rest => (false, rest)
    | cs => (false, cs)
  let name := String.ofList (body.map Char.toLower)
  if name = "inf" ∨ name = "infinity" then some (Binary64.ofScaled negative (twoTo 53) 1024)
  else if name = "nan" then some (Float.ofBits 0x7ff8000000000000)
  else unsigned? negative body

end BoundView.Decimal
