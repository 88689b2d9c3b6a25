import BoundView.Schema.Basic

/-!
# Checking values against types

`instantiate` gives the value that is stored for a value that is given: absent members take their
defaults, members that the type does not declare are dropped, and what is optional and absent is
left out.  `null` in a slot counts as absent.

A default is itself checked, and its absent parts take their defaults in turn.  An expansion that
comes back to the slot where it started never ends; so no more expansions are nested than there are
slots.
-/

namespace BoundView

inductive Violation where
  | wrongKind (expected found : String)
  | bound (rule : Rule)
  /-- Nothing stands in a slot that has to be filled. -/
  | missing
  /-- A model of a type that is no object type. -/
  | notObject (found : String)
  | unresolvedReference
  | endlessDefault
  deriving DecidableEq

def Violation.message : Violation → String
  | .wrongKind expected found => "expected " ++ expected ++ ", got " ++ found
  | .bound rule => rule.message
  | .missing => "value is required"
  | .notObject found => "a model needs an object type, not " ++ found
  | .unresolvedReference => "unresolved type reference"
  | .endlessDefault => "default values never end"

/-- A value that its type refuses, and the part of it that is at fault. -/
structure ValidationError where
  path : Path
  violation : Violation
  deriving DecidableEq

namespace ValidationError

def pathText (e : ValidationError) : String :=
  Pointer.format e.path

def message (e : ValidationError) : String :=
  if e.pathText = "" then e.violation.message else e.pathText ++ ": " ++ e.violation.message

end ValidationError

namespace Schema

variable (s : Schema)

/-- How a value is checked, for the type and the path of the place where it stands. -/
abbrev Check := TypeId → Path → Except ValidationError Json

/-- A value that holds no other, or that stands where a value without parts should. -/
def checkLeaf (value : Json) (id : TypeId) (path : Path) : Except ValidationError Json :=
  let wrongKind (expected : String) := .error ⟨path, .wrongKind expected value.kind⟩
  match s.kind id with
  | .any _ => .ok value
  | .string =>
    match value with
    | .string _ => .ok value
    | _ => wrongKind "string"
  | .boolean =>
    match value with
    | .bool _ => .ok value
    | _ => wrongKind "boolean"
  | .number rules =>
    match value with
    | .number n =>
      match rules.find? (·.rejects n.toFloat) with
      | some rule => .error ⟨path, .bound rule⟩
      | none => .ok value
    | _ => wrongKind "number"
  | .array _ => wrongKind "array"
  | .object _ => wrongKind "object"
  | .ref _ => .error ⟨path, .unresolvedReference⟩

/-- A slot where nothing stands, or `null`; `expand` checks a default. -/
def fillAbsent (expand : Json → Check) (value? : Option Json) (id : TypeId) (path : Path) :
    Except ValidationError (Option Json) :=
  if (s.kind id).isAny then .ok value?
  else
    match s.presence id with
    | .defaulted value => some <$> expand value id path
    | .optional => .ok none
    | .required => .error ⟨path, .missing⟩

/-- A slot and what is given for it, with its check. -/
def fillSlot (expand : Json → Check) (given : Option (Json × Check)) (id : TypeId) (path : Path) :
    Except ValidationError (Option Json) :=
  match given with
  | some (value, check) =>
    -- A slot that accepts anything keeps its `null`.
    if value.isNull then s.fillAbsent expand (some value) id path else some <$> check id path
  | none => s.fillAbsent expand none id path

/-- The elements of an array, from the one at `index` on; an absent one is `null`. -/
def fillElements (expand : Json → Check) (items : TypeId) (path : Path) (index : Nat) :
    List (Json × Check) → Except ValidationError (List Json)
  | [] => .ok []
  | given :: rest => do
    let value? ← s.fillSlot expand (some given) items (path ++ [.index index])
    let values ← fillElements expand items path (index + 1) rest
    .ok (value?.getD .null :: values)

/-- The declared fields of an object, each filled from the member of its name. -/
def fillFields (expand : Json → Check) (given : Members (Json × Check)) (path : Path) :
    List (String × TypeId) → Except ValidationError (List (String × Json))
  | [] => .ok []
  -- Members that are not declared are never looked at.
  | (name, id) :: rest => do
    let value? ← s.fillSlot expand (Members.find? name given) id (path ++ [.field name])
    let members ← fillFields expand given path rest
    match value? with
    | some value => .ok ((name, value) :: members)
    | none => .ok members

mutual

/-- Check a value. -/
def check (expand : Json → Check) : Json → Check
  | .array items => fun id path =>
    match s.kind id with
    | .array item => .array <$> s.fillElements expand item path 0 (checkItems expand items)
    | _ => s.checkLeaf (.array items) id path
  | .object ms => fun id path =>
    match s.kind id with
    | .object type => .object <$> s.fillFields expand (checkMembers expand ms) path type.fields
    | _ => s.checkLeaf (.object ms) id path
  | value => s.checkLeaf value

def checkItems (expand : Json → Check) : List Json → List (Json × Check)
  | [] => []
  | item :: rest => (item, check expand item) :: checkItems expand rest

def checkMembers (expand : Json → Check) : List (String × Json) → Members (Json × Check)
  | [] => []
  | (name, value) :: rest => (name, value, check expand value) :: checkMembers expand rest

end

/-- Check a default, with at most so many expansions nested. -/
def expandDefault : Nat → Json → Check
  | 0, _, _, path => .error ⟨path, .endlessDefault⟩
  | depth + 1, value, id, path => s.check (expandDefault depth) value id path

/-- The value that is stored for a value of a type; `path` leads to the place where it stands. -/
def instantiate (id : TypeId) (value : Json) (path : Path) : Except ValidationError Json :=
  s.check (s.expandDefault s.size) value id path

/-- What is stored in a slot, if anything. -/
def instantiateSlot (id : TypeId) (value? : Option Json) (path : Path) :
    Except ValidationError (Option Json) :=
  let expand := s.expandDefault s.size
  s.fillSlot expand (value?.map fun value => (value, s.check expand value)) id path

end Schema

end BoundView
