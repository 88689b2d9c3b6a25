import BoundView.Binary64
import BoundView.Members

/-!
# JSON values

Numbers keep the form in which they were given: an integer of the 64-bit ranges is exact, any other
number is a binary64 one.  The members of an object keep their order, and no name occurs twice in an
object that was read or built by `Members.ofList`.
-/

namespace BoundView

/-- An integer from `-2 ^ 63` to `2 ^ 64 - 1`, or a finite binary64 number. -/
inductive Json.Number where
  | int (n : Int)
  | float (x : Float)
  deriving DecidableEq

inductive Json where
  | null
  | bool (b : Bool)
  | number (n : Json.Number)
  | string (s : String)
  | array (items : List Json)
  | object (members : List (String × Json))

namespace Json

instance : Inhabited Json := ⟨.null⟩

/-- The binary64 number nearest to a number. -/
def Number.toFloat : Number → Float
  | .int n => Binary64.ofInt n
  | .float x => x

/-- Numbers are equal when they have the same form and value. -/
def Number.beq : Number → Number → Bool
  | .int m, .int n => m == n
  | .float x, .float y => x == y
  | _, _ => false

mutual

/-- Equality of documents; the order of members does not count. -/
def beq : Json → Json → Bool
  | .null, .null => true
  | .bool a, .bool b => a == b
  | .number m, .number n => m.beq n
  | .string s, .string t => s == t
  | .array xs, .array ys => beqItems xs ys
  | .object ms, .object ns => ms.length == ns.length && beqMembers ms ns
  | _, _ => false

def beqItems : List Json → List Json → Bool
  | [], [] => true
  | x :: xs, y :: ys => beq x y && beqItems xs ys
  | _, _ => false

/-- Whether each member of the first list has an equal one in the second. -/
def beqMembers : List (String × Json) → List (String × Json) → Bool
  | [], _ => true
  | (key, value) :: rest, ns =>
    (match Members.find? key ns with
      | some other => beq value other
      | none => false)
    && beqMembers rest ns

end

instance : BEq Json := ⟨beq⟩

/-- The name of a value's kind. -/
def kind : Json → String
  | .null => "null"
  | .bool _ => "boolean"
  | .number _ => "number"
  | .string _ => "string"
  | .array _ => "array"
  | .object _ => "object"

def isNull : Json → Bool
  | .null => true
  | _ => false

def member? (name : String) : Json → Option Json
  | .object ms => Members.find? name ms
  | _ => none

def element? (index : Nat) : Json → Option Json
  | .array items => items[index]?
  | _ => none

/-- The number that stands for `x`: an integer where `x` is one of at most `2 ^ 63` in magnitude
(`2 ^ 63` itself is written one less), and `null` for what is not finite. -/
def ofFloat (x : Float) : Json :=
  match Binary64.integer? x with
  | some n =>
    if n.natAbs ≤ twoTo 63 then .number (.int (min n (twoTo 63 - 1)))
    else .number (.float x)
  | none => if Binary64.isFinite x then .number (.float x) else .null

end Json

end BoundView
