import BoundView.Schema.Basic

/-!
# Minimal values

The smallest value of a type has its required fields only, each at its own smallest value; numbers
are as close to zero as their bounds allow.
-/

namespace BoundView.Schema

variable (s : Schema)

/-- A number moved to where a rule allows it. -/
def clamp (x : Float) : Rule → Float
  | .atLeast min => if x < min then min else x
  | .atMost max => if max < x then max else x

def zeroOf (rules : List Rule) : Json :=
  Json.ofFloat (rules.foldl clamp 0)

/-- The smallest value, with objects nested at most so deeply. -/
def minimalWithin : Nat → TypeId → Json
  | 0, _ => .null
  | depth + 1, id =>
    match s.kind id with
    | .string => .string ""
    | .boolean => .bool false
    | .number rules => zeroOf rules
    | .array _ => .array []
    | .object type =>
      let required := type.fields.filter fun field => (s.presence field.2).isRequired
      .object (required.map fun field => (field.1, minimalWithin depth field.2))
    | .ref _ => .null
    | .any _ => .null

/-- The smallest value of a type.  No type has to hold a value of its own type, so there are no
more objects inside one another than there are types. -/
def minimalValue (id : TypeId) : Json :=
  s.minimalWithin (s.size + 1) id

end BoundView.Schema
