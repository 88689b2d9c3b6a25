import BoundView.Decimal.Layout
import BoundView.Pointer

/-!
# Schemas

A schema is a list of types that refer to one another by their places in it, so that a type may
refer to itself.  A reference stands for the type that it leads to, over any number of further
references; what a slot of a type may hold when it is absent is the slot's own affair and does not
follow the reference.
-/

namespace BoundView

/-- The place of a type in its schema. -/
abbrev TypeId := Nat

/-- What absence means for a slot. -/
inductive Presence where
  | required
  | optional
  | defaulted (value : Json)

namespace Presence

def isRequired : Presence → Bool
  | .required => true
  | _ => false

def isOptional : Presence → Bool
  | .optional => true
  | _ => false

def default? : Presence → Option Json
  | .defaulted value => some value
  | _ => none

end Presence

/-- A bound that a number has to respect. -/
inductive Rule where
  | atLeast (min : Float)
  | atMost (max : Float)
  deriving DecidableEq

namespace Rule

def rejects (x : Float) : Rule → Bool
  | .atLeast min => x < min
  | .atMost max => x > max

def message : Rule → String
  | .atLeast min => "Value must be equal or greater than " ++ Decimal.plain.write min
  | .atMost max => "Value must be equal or lower than " ++ Decimal.plain.write max

end Rule

structure ObjectType where
  /-- What is stored, in the order of declaration. -/
  fields : Members TypeId
  /-- Fields that are read by evaluating an expression and never stored. -/
  computed : Members String

/-- A kind of type; `ρ` is the form in which a reference names its target. -/
inductive TypeKind (ρ : Type) where
  | string
  | number (rules : List Rule)
  | boolean
  | array (items : TypeId)
  | object (type : ObjectType)
  | ref (target : ρ)
  /-- Accepts anything; stands for a kind that is not known. -/
  | any (declared : String)

namespace TypeKind

variable {ρ : Type}

def isAny : TypeKind ρ → Bool
  | .any _ => true
  | _ => false

def isRef : TypeKind ρ → Bool
  | .ref _ => true
  | _ => false

def object? : TypeKind ρ → Option ObjectType
  | .object type => some type
  | _ => none

def name : TypeKind ρ → String
  | .string => "string"
  | .number _ => "number"
  | .boolean => "boolean"
  | .array _ => "array"
  | .object _ => "object"
  | .ref _ => "$ref"
  | .any _ => "any"

end TypeKind

/-- A type, with the pointer to its place in the document that declares it. -/
structure TypeDescriptor (ρ : Type) where
  pointer : String
  presence : Presence
  kind : TypeKind ρ

structure Schema where
  types : List (TypeDescriptor TypeId)
  root : TypeId

namespace Schema

variable (s : Schema)

def size : Nat :=
  s.types.length

/-- The type at a place; behind the last one stands a type that accepts anything. -/
def descriptor (id : TypeId) : TypeDescriptor TypeId :=
  s.types.getD id ⟨"", .optional, .any ""⟩

/-- Follow references, at most so many. -/
def follow : Nat → TypeId → TypeId
  | 0, id => id
  | n + 1, id =>
    match (s.descriptor id).kind with
    | .ref target => follow n target
    | _ => id

/-- The type that a reference leads to; any other type leads to itself. -/
def resolve (id : TypeId) : TypeId :=
  s.follow (s.size + 1) id

/-- The kind of a type, references followed. -/
def kind (id : TypeId) : TypeKind TypeId :=
  (s.descriptor (s.resolve id)).kind

def presence (id : TypeId) : Presence :=
  (s.descriptor id).presence

def pointer (id : TypeId) : String :=
  (s.descriptor id).pointer

def object? (id : TypeId) : Option ObjectType :=
  (s.kind id).object?

def kindName (id : TypeId) : String :=
  (s.kind id).name

/-- The type one step down. -/
def stepType (id : TypeId) : Seg → Option TypeId
  | .field name => (s.object? id).bind fun type => Members.find? name type.fields
  | .index _ =>
    match s.kind id with
    | .array items => some items
    | _ => none

/-- The type of the node that a path leads to. -/
def typeAt (id : TypeId) : Path → Option TypeId
  | [] => some id
  | seg :: path => (s.stepType id seg).bind fun child => typeAt child path

end Schema

end BoundView
