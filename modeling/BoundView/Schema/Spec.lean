import BoundView.Document.Record

/-!
# Property specs

A schema is written as a tree of property specs.  A spec says what kind of value stands in a place,
whether it may be absent, and what stands there by default.
-/

namespace BoundView

mutual

inductive PropertySpec where
  | mk (optional : Bool) (default? : Option Json) (kind : SpecKind)

inductive SpecKind where
  | string
  | number (min max : Option Float)
  | boolean
  | array (items : PropertySpec)
  | computed (expression : String)
  | object (properties : List (String × PropertySpec))
  /-- Whatever the pointer into the same schema names. -/
  | ref (pointer : String)
  /-- A kind that is not known. -/
  | unknown (kind : String)

end

namespace PropertySpec

def isOptional : PropertySpec → Bool
  | .mk optional _ _ => optional

def default? : PropertySpec → Option Json
  | .mk _ default _ => default

def kind : PropertySpec → SpecKind
  | .mk _ _ kind => kind

/-- A spec that may be absent. -/
def ofKind (kind : SpecKind) : PropertySpec :=
  .mk true none kind

def required : PropertySpec → PropertySpec
  | .mk _ default kind => .mk false default kind

def withDefault (value : Json) : PropertySpec → PropertySpec
  | .mk optional _ kind => .mk optional (some value) kind

/-- An object with these properties; a repeated name keeps its first place and its last spec. -/
def object (properties : List (String × PropertySpec)) : PropertySpec :=
  .ofKind (.object (Members.ofList properties))

end PropertySpec

/-! ## Reading a spec -/

open Document in
/-- The members that a spec may have, as far as they are read. -/
structure RawSpec where
  kind : Option String
  optional : Option Bool
  default? : Option Json
  min : Option Float
  max : Option Float
  items : Option PropertySpec
  expression : Option String
  properties : Members PropertySpec
  reference : Option String

namespace RawSpec

open Document

def empty : RawSpec :=
  ⟨none, none, none, none, none, none, none, [], none⟩

private def field (name : String) : Field :=
  { name, otherName := none, mandatory := false, listed := true }

def shape : Shape where
  name := "RawSpec"
  fields := [
    { field "kind" with otherName := some "type" },
    field "optional",
    field "default",
    field "min",
    field "max",
    field "items",
    field "expression",
    { field "properties" with listed := false },
    field "$ref"]

/-- The spec that the members make; a reference counts before any kind. -/
def toSpec (raw : RawSpec) : Except Problem PropertySpec := do
  let kind : SpecKind ←
    match raw.reference, raw.kind with
    -- A kind beside a reference is not looked at.
    | some pointer, _ => .ok (.ref pointer)
    | none, none => .ok (.object raw.properties)
    | none, some kind =>
      if kind = "object" then .ok (.object raw.properties)
      else if kind = "string" then .ok .string
      else if kind = "number" then .ok (.number raw.min raw.max)
      else if kind = "boolean" then .ok .boolean
      else if kind = "array" then
        match raw.items with
        | some items => .ok (.array items)
        | none => .error (.here (.incomplete "array" "items"))
      else if kind = "computed" then
        match raw.expression with
        | some expression => .ok (.computed expression)
        | none => .error (.here (.incomplete "computed" "expression"))
      else .ok (.unknown kind)
  .ok (.mk (raw.optional.getD true) raw.default? kind)

end RawSpec

namespace PropertySpec

open Document Json

/-- Read a spec. -/
def read (origin : Origin) (o : Outline) : Except Problem PropertySpec := do
  let raw ← readRecord origin RawSpec.shape RawSpec.empty o fun field part raw => do
    if field.name = "kind" then .ok { raw with kind := ← optional toText part.1 }
    else if field.name = "optional" then .ok { raw with optional := ← optional toBool part.1 }
    else if field.name = "default" then .ok { raw with default? := ← optional toJson part.1 }
    else if field.name = "min" then .ok { raw with min := ← optional toFloat part.1 }
    else if field.name = "max" then .ok { raw with max := ← optional toFloat part.1 }
    else if field.name = "expression" then .ok { raw with expression := ← optional toText part.1 }
    else if field.name = "$ref" then .ok { raw with reference := ← optional toText part.1 }
    else if field.name = "properties" then
      let properties ← readMap part.1 fun inner => read origin inner.1
      .ok { raw with properties }
    else if part.1.isNull then .ok { raw with items := none }
    else
      let items ← read origin part.1
      .ok { raw with items := some items }
  raw.toSpec
termination_by sizeOf o
decreasing_by
  · exact Nat.lt_trans inner.2 part.2
  · exact part.2

/-- Read a spec from the start of a text. -/
def ofText (text : String) : Except Problem PropertySpec :=
  read .text (Outline.ofText text).1

def ofJson (document : Json) : Except Problem PropertySpec :=
  read .value (Outline.ofJson document)

end PropertySpec

end BoundView
