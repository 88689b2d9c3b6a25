import BoundView.Event
import BoundView.Schema.Instantiate
import BoundView.Schema.Spec

/-!
# From specs to schemas

A spec is first laid out: every stored node gets a type, numbered in the order in which a reader
comes to it, and references keep the pointers they are written with.  Then references are linked to
the types at their pointers, and the schema is checked: no chain of references may run in a circle,
no object may have to contain itself, and every default has to be of its type.

Fields that are computed have no type.  A computed property that is no field of an object accepts
anything, as does a property of a kind that is not known; both leave an event in the log.
-/

namespace BoundView

inductive CompileError where
  | unresolvedRef (pointer target : String)
  | refToComputed (pointer target : String)
  | refCycle (pointer : String)
  | requiredCycle (pointer : String)
  | invalidDefault (pointer : String) (cause : ValidationError)
  deriving DecidableEq

def CompileError.message : CompileError → String
  | .unresolvedRef pointer target =>
    pointer ++ ": reference " ++ Text.tick target ++ " does not point at a property spec"
  | .refToComputed pointer target =>
    pointer ++ ": reference " ++ Text.tick target ++ " points at a computed property"
  | .refCycle pointer => pointer ++ ": reference chain never reaches a concrete type"
  | .requiredCycle pointer =>
    pointer
      ++ ": required properties lead back to this object, so no finite value satisfies it"
  | .invalidDefault pointer cause => pointer ++ ": default value is invalid: " ++ cause.message

namespace Schema

/-! ## Layout -/

/-- What a spec contributes to a schema. -/
structure Draft where
  types : List (TypeDescriptor String)
  /-- The pointers of the computed fields. -/
  computed : List String
  events : List Event

namespace Draft

def leaf (type : TypeDescriptor String) : Draft :=
  ⟨[type], [], []⟩

/-- One type in front of the others. -/
def above (type : TypeDescriptor String) (d : Draft) : Draft :=
  { d with types := type :: d.types }

def append (a b : Draft) : Draft :=
  ⟨a.types ++ b.types, a.computed ++ b.computed, a.events ++ b.events⟩

end Draft

def presenceOf (spec : PropertySpec) : Presence :=
  if spec.isOptional then
    match spec.default? with
    | some value => .defaulted value
    | none => .optional
  else .required

/-- The rules of a number; the lower bound is checked first. -/
def rulesOf (min max : Option Float) : List Rule :=
  (min.map Rule.atLeast).toList ++ (max.map Rule.atMost).toList

def fieldPointer (pointer name : String) : String :=
  pointer ++ "/properties/" ++ Pointer.escape name

def itemsPointer (pointer : String) : String :=
  pointer ++ "/items"

mutual

/-- Lay out a spec, whose own type is at `next`. -/
def layOut (pointer : String) (next : TypeId) : PropertySpec → Draft
  | .mk optional default kind =>
    let presence := presenceOf (.mk optional default kind)
    match kind with
    | .string => .leaf ⟨pointer, presence, .string⟩
    | .boolean => .leaf ⟨pointer, presence, .boolean⟩
    | .number min max => .leaf ⟨pointer, presence, .number (rulesOf min max)⟩
    | .ref target => .leaf ⟨pointer, presence, .ref target⟩
    | .array items =>
      (layOut (itemsPointer pointer) (next + 1) items).above ⟨pointer, presence, .array (next + 1)⟩
    | .object properties =>
      let (type, rest) := layOutFields pointer (next + 1) properties
      rest.above ⟨pointer, presence, .object type⟩
    | .computed expression =>
      ⟨[⟨pointer, presence, .any "computed"⟩], [], [.strayComputed pointer expression]⟩
    | .unknown kind => ⟨[⟨pointer, presence, .any kind⟩], [], [.unknownKind pointer kind]⟩

/-- Lay out the properties of the object at `pointer`. -/
def layOutFields (pointer : String) (next : TypeId) :
    List (String × PropertySpec) → ObjectType × Draft
  | [] => (⟨[], []⟩, ⟨[], [], []⟩)
  | (name, .mk optional default kind) :: rest =>
    let child := fieldPointer pointer name
    match kind with
    | .computed expression =>
      let (type, draft) := layOutFields pointer next rest
      -- A computed field has no type and takes no number.
      ({ type with computed := (name, expression) :: type.computed },
        { draft with computed := child :: draft.computed })
    | kind =>
      let first := layOut child next (.mk optional default kind)
      let (type, draft) := layOutFields pointer (next + first.types.length) rest
      ({ type with fields := (name, next) :: type.fields }, first.append draft)

end

/-! ## Linking -/

/-- `#`, `#/a`, `/a` and the empty text all name nodes of the same document. -/
def normalizeTarget (target : String) : String :=
  let rest :=
    match target.toList with
    -- Only one `#` is taken off.
    | '#' :: rest => rest
    | cs => cs
  String.ofList ('#' :: (rest.reverse.dropWhile (· == '/')).reverse)

/-- The type at a pointer. -/
def Draft.idOf? (d : Draft) (pointer : String) : Option TypeId :=
  d.types.findIdx? fun type => type.pointer == pointer

def Draft.linkKind (d : Draft) (pointer : String) :
    TypeKind String → Except CompileError (TypeKind TypeId)
  | .string => .ok .string
  | .number rules => .ok (.number rules)
  | .boolean => .ok .boolean
  | .array items => .ok (.array items)
  | .object type => .ok (.object type)
  | .any declared => .ok (.any declared)
  | .ref target =>
    let key := normalizeTarget target
    match d.idOf? key with
    | some id => .ok (.ref id)
    | none =>
      if d.computed.contains key then .error (.refToComputed pointer target)
      else .error (.unresolvedRef pointer target)

def Draft.linkType (d : Draft) (type : TypeDescriptor String) :
    Except CompileError (TypeDescriptor TypeId) := do
  let kind ← d.linkKind type.pointer type.kind
  .ok ⟨type.pointer, type.presence, kind⟩

/-- Every reference led to its target. -/
def Draft.link (d : Draft) : Except CompileError Schema := do
  let types ← d.types.mapM d.linkType
  .ok ⟨types, 0⟩

/-! ## Checks -/

variable (s : Schema)

/-- The fields without which no value of the object type is complete. -/
def requiredTypes (type : ObjectType) : List TypeId :=
  (type.fields.filter fun field => (s.presence field.2).isRequired).map fun field =>
    s.resolve field.2

/-- Whether an object type needs a value of one of the types. -/
def needsOneOf (ids : List TypeId) (id : TypeId) : Bool :=
  match (s.descriptor id).kind with
  | .object type => (s.requiredTypes type).any ids.contains
  | _ => false

/-- Those types that need one another, so that none of them has a finite value. -/
def entangled (ids : List TypeId) : List TypeId :=
  -- What needs none of the others has a finite value, and is no obstacle any more.
  let kept := ids.filter fun id => s.needsOneOf ids id
  if _h : kept.length < ids.length then entangled kept else ids
termination_by ids.length
decreasing_by exact _h

/-- The first object type without a finite value. -/
def firstEndless? : Option TypeId :=
  (s.entangled (List.range s.size)).head?

/-- The first reference of a circle, or into one. -/
def firstCircular? : Option TypeId :=
  (List.range s.size).find? fun id => (s.kind id).isRef

/-- Check the defaults of the types. -/
def checkDefaults (s : Schema) : List TypeId → Except CompileError Unit
  | [] => .ok ()
  | id :: rest => do
    if let .defaulted value := s.presence id then
      if let .error cause := s.instantiate id value [] then
        throw (.invalidDefault (s.pointer id) cause)
    checkDefaults s rest

def checked (s : Schema) : Except CompileError Schema := do
  if let some id := s.firstCircular? then throw (.refCycle (s.pointer id))
  if let some id := s.firstEndless? then throw (.requiredCycle (s.pointer id))
  s.checkDefaults (List.range s.size)
  .ok s

/-- The schema of a spec, and what there is to log about the spec. -/
def compile (spec : PropertySpec) : Except CompileError Schema × List Event :=
  let draft := layOut "#" 0 spec
  (draft.link.bind checked, draft.events)

end Schema

end BoundView
