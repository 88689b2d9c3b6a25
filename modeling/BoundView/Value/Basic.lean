import BoundView.Expr.Tree
import BoundView.Model.Reference

/-!
# Values

The values of expressions.  `undefined` is what is absent, and differs from the `null` of a
document.  A composite node of a model is not copied: its value is a reference.
-/

namespace BoundView

inductive Value where
  | undefined
  | null
  | bool (b : Bool)
  | number (x : Float)
  | string (s : String)
  | list (items : List Value)
  | map (members : List (String × Value))
  | model (ref : ModelRef)

namespace Value

instance : Inhabited Value := ⟨.undefined⟩

mutual

/-- The value of a document; every number becomes a binary64 one. -/
def ofJson : Json → Value
  | .null => .null
  | .bool b => .bool b
  | .number n => .number n.toFloat
  | .string s => .string s
  | .array items => .list (ofItems items)
  | .object ms => .map (ofMembers ms)

def ofItems : List Json → List Value
  | [] => []
  | item :: rest => ofJson item :: ofItems rest

def ofMembers : List (String × Json) → List (String × Value)
  | [] => []
  | (name, value) :: rest => (name, ofJson value) :: ofMembers rest

end

def ofLiteral : Expr.Literal → Value
  | .undefined => .undefined
  | .null => .null
  | .bool b => .bool b
  | .number x => .number x
  | .string s => .string s

mutual

/-- Equality of values: the order of members does not count, and references are equal when they
name the same place of the same model. -/
def beq : Value → Value → Bool
  | .undefined, .undefined => true
  | .null, .null => true
  | .bool a, .bool b => a == b
  | .number x, .number y => x == y
  | .string s, .string t => s == t
  | .list xs, .list ys => beqItems xs ys
  -- No name occurs twice, so equal length leaves no member of the second without a partner.
  | .map ms, .map ns => ms.length == ns.length && beqMembers ms ns
  | .model q, .model r => q == r
  | _, _ => false

def beqItems : List Value → List Value → Bool
  | [], [] => true
  | x :: xs, y :: ys => beq x y && beqItems xs ys
  | _, _ => false

/-- Whether each member of the first list has an equal one in the second. -/
def beqMembers : List (String × Value) → List (String × Value) → Bool
  | [], _ => true
  | (name, value) :: rest, ns =>
    (match Members.find? name ns with
      | some other => beq value other
      | none => false)
    && beqMembers rest ns

end

instance : BEq Value := ⟨beq⟩

def isTruthy : Value → Bool
  | .undefined => false
  | .null => false
  | .bool b => b
  | .number x => x != 0 && !Binary64.isNaN x
  | .string s => !s.isEmpty
  | .list _ => true
  | .map _ => true
  | .model _ => true

def isUndefined : Value → Bool
  | .undefined => true
  | _ => false

/-- The kind of a value, for which the models are looked at without being read. -/
def kind (models : Models) : Value → Expr.Kind
  | .undefined => .undefined
  | .null => .null
  | .bool _ => .boolean
  | .number _ => .number
  | .string _ => .string
  | .list _ => .list
  | .map _ => .map
  | .model r => if r.isArray models then .modelArray else .model

/-- The position that a number stands for: no fraction, no sign, and no larger than `2 ^ 64 - 1`. -/
def position? (x : Float) : Option Nat :=
  (Binary64.integer? x).bind fun n => if 0 ≤ n then some (min n.toNat (twoTo 64 - 1)) else none

end Value

/-- The names that an expression sees. -/
abbrev Context := Members Value

namespace Context

/-- Inside a part of a model. -/
def inside (self : ModelRef) : Context :=
  [("$root", .model (.root self.model)), ("$self", .model self)]

def root (model : ModelId) : Context :=
  inside (.root model)

/-- The members of an object become names. -/
def ofJson : Json → Context
  | .object ms => Value.ofMembers ms
  | _ => []

end Context

end BoundView
