import BoundView.Document.Record
import BoundView.Model.Reference
import BoundView.Schema.Instantiate

/-!
# Patches

A patch is one edit of a model: it names a place by a pointer relative to a reference, and what is
to be done there.  `plan` finds the place by its type and checks the new value; `ModelRef.apply`
makes the edit, and changes nothing where any step fails.
-/

namespace BoundView

inductive PatchOp where
  | add
  | replace
  | remove
  deriving DecidableEq, Repr

namespace PatchOp

/-- The operations by their names. -/
def names : List (String × PatchOp) :=
  [("add", .add), ("replace", .replace), ("remove", .remove)]

def ofName? (name : String) : Option PatchOp :=
  names.lookup name

def name : PatchOp → String
  | .add => "add"
  | .replace => "replace"
  | .remove => "remove"

end PatchOp

structure Patch where
  op : PatchOp
  path : String
  value? : Option Json

inductive PatchError where
  | invalidPointer (path : String)
  | pathNotFound (place : Path)
  | unknownField (name : String)
  | computedField (name : String)
  | invalidIndex (token : String)
  | notAContainer (place : Path)
  /-- What a reference names can be replaced, but not taken away. -/
  | wholeTarget (place : Path)
  | validation (e : ValidationError)
  deriving DecidableEq

def PatchError.message : PatchError → String
  | .invalidPointer path => "invalid patch path " ++ Text.tick path
  | .pathNotFound place => "nothing exists at " ++ Text.tick (Pointer.format place)
  | .unknownField name => Text.tick name ++ " is not a declared field"
  | .computedField name => Text.tick name ++ " is a computed field and cannot be patched"
  | .invalidIndex token => Text.tick token ++ " is not a valid array position"
  | .notAContainer place => Text.tick (Pointer.format place) ++ " is not an object or array"
  | .wholeTarget place =>
    Text.tick (Pointer.format place) ++ " can only be replaced as a whole"
  | .validation e => e.message

/-! ## Documents -/

namespace Patch

open Document

/-- The members of a patch, as far as they are read. -/
structure Draft where
  op? : Option PatchOp
  path? : Option String
  value? : Option Json

def shape : Shape where
  name := "Patch"
  fields := [
    { name := "op", otherName := none, mandatory := true, listed := true },
    { name := "path", otherName := none, mandatory := true, listed := true },
    { name := "value", otherName := none, mandatory := false, listed := false }]

/-- Read a patch. -/
def read (origin : Origin) (o : Json.Outline) : Except Problem Patch := do
  let draft ← readRecord origin shape (⟨none, none, none⟩ : Draft) o fun field part draft => do
    if field.name = "op" then
      let op ← readChoice origin PatchOp.names part.1
      .ok { draft with op? := some op }
    else if field.name = "path" then
      let path ← toText part.1
      .ok { draft with path? := some path }
    else
      let value? ← optional toJson part.1
      .ok { draft with value? }
  match draft.op?, draft.path? with
  | none, _ => .error (.here (.missingField "op"))
  | _, none => .error (.here (.missingField "path"))
  | some op, some path => .ok ⟨op, path, draft.value?⟩

/-- Read a patch from the start of a text. -/
def ofText (text : String) : Except Problem Patch :=
  read .text (Json.Outline.ofText text).1

def ofJson (document : Json) : Except Problem Patch :=
  read .value (Json.Outline.ofJson document)

def toJson (p : Patch) : Json :=
  .object
    ([("op", .string p.op.name), ("path", .string p.path)]
      ++ (p.value?.map fun value => ("value", value)).toList)

end Patch

/-! ## Edits -/

/-- What is done at one step below a container. -/
inductive Edit where
  | set (value : Json)
  | unset
  | insert (value : Json)
  | delete

/-- The edit of a container at a step below it, which has to fit its kind. -/
def Edit.apply (edit : Edit) (seg : Seg) : Json → Option Json
  | .object ms =>
    match seg, edit with
    | .field name, .set value => some (.object (Members.set name value ms))
    | .field name, .unset => some (.object (Members.erase name ms))
    | _, _ => none
  | .array items =>
    match seg, edit with
    | .index i, .set value => some (.array (items.set i value))
    | .index i, .insert value => some (.array (items.insertIdx i value))
    | .index i, .delete => some (.array (items.eraseIdx i))
    | _, _ => none
  | _ => none

/-- Whether the edit moves the elements behind it. -/
def Edit.shifts : Edit → Bool
  | .insert _ => true
  | .delete => true
  | _ => false

/-- An edit and the place where it is made. -/
structure Plan where
  container : Path
  seg : Seg
  edit : Edit

def Plan.path (p : Plan) : Path :=
  p.container ++ [p.seg]

def Plan.change (p : Plan) (model : ModelId) : Change where
  model
  path := p.path
  shifted :=
    match p.edit.shifts, p.seg with
    | true, .index i => some (p.container, i)
    | _, _ => none

/-- The position that a token writes: decimal digits after an optional plus sign, and no number
from `2 ^ 64` on. -/
def arrayIndex? (token : String) : Option Nat :=
  let digits :=
    match token.toList with
    | '+' :: rest => rest
    | cs => cs
  if digits.isEmpty || !digits.all Char.isDigit then none
  else
    let n := digits.foldl (fun n c => 10 * n + (c.toNat - '0'.toNat)) 0
    if n < twoTo 64 then some n else none

def arrayIndex (token : String) : Except PatchError Nat :=
  match arrayIndex? token with
  | some i => .ok i
  | none => .error (.invalidIndex token)

/-- The stored field of an object type. -/
def ObjectType.storedField (type : ObjectType) (name : String) : Except PatchError TypeId :=
  if Members.contains name type.computed then .error (.computedField name)
  else
    match Members.find? name type.fields with
    | some id => .ok id
    | none => .error (.unknownField name)

namespace Schema

variable (s : Schema)

/-- One step along a pointer, by the type of the container. -/
def stepToken (id : TypeId) (place : Path) (token : String) : Except PatchError (Seg × TypeId) :=
  match s.kind id with
  | .object type => do
    let field ← type.storedField token
    .ok (.field token, field)
  | .array items => do
    let i ← arrayIndex token
    .ok (.index i, items)
  | _ => .error (.notAContainer place)

/-- Follow the tokens of a pointer from a place of a type. -/
def walk (id : TypeId) (place : Path) : List String → Except PatchError (Path × TypeId)
  | [] => .ok (place, id)
  | token :: rest => do
    let (seg, child) ← s.stepToken id place token
    walk child (place ++ [seg]) rest

def checkSlot (id : TypeId) (value? : Option Json) (path : Path) :
    Except PatchError (Option Json) :=
  (s.instantiateSlot id value? path).mapError .validation

/-- The edit of a field: a field that is left without a value is unset. -/
def planField (type : ObjectType) (container : Path) (name : String) (patch : Patch) :
    Except PatchError Plan := do
  let field ← type.storedField name
  -- To remove a field is to leave it without a value: a default comes back.
  let given := if patch.op = .remove then none else patch.value?
  let value? ← s.checkSlot field given (container ++ [.field name])
  .ok ⟨container, .field name, match value? with | some value => .set value | none => .unset⟩

/-- The edit of an array of `length` elements; `-` adds behind the last one. -/
def planElement (items : TypeId) (length : Nat) (container : Path) (token : String)
    (patch : Patch) : Except PatchError Plan := do
  let i ← if patch.op = .add ∧ token = "-" then .ok length else arrayIndex token
  -- An element can be added behind the last one, but not replaced there.
  let bound := if patch.op = .add then length + 1 else length
  if bound ≤ i then throw (.invalidIndex token)
  let element := do
    let value? ← s.checkSlot items patch.value? (container ++ [.index i])
    .ok (value?.getD .null)
  match patch.op with
  | .add => do .ok ⟨container, .index i, .insert (← element)⟩
  | .replace => do .ok ⟨container, .index i, .set (← element)⟩
  | .remove => .ok ⟨container, .index i, .delete⟩

/-- The edit below a container that stands at a place. -/
def planWithin (id : TypeId) (node : Json) (container : Path) (token : String) (patch : Patch) :
    Except PatchError Plan :=
  match node, s.kind id with
  | .object _, .object type => s.planField type container token patch
  | .array xs, .array items => s.planElement items xs.length container token patch
  | _, _ => .error (.notAContainer container)

end Schema

namespace Model

variable (m : Model)

/-- The edit that a pointer with these tokens, of which `last` is the last, asks for. -/
def plan (from_ : Path) (parents : List String) (last : String) (patch : Patch) :
    Except PatchError Plan := do
  let id ← ofOption (m.schema.typeAt m.type from_) (.pathNotFound from_)
  let (container, id) ← m.schema.walk id from_ parents
  let node ← ofOption (m.data.get? container) (.pathNotFound container)
  m.schema.planWithin id node container last patch
where
  ofOption {α : Type} (a? : Option α) (e : PatchError) : Except PatchError α :=
    match a? with
    | some a => .ok a
    | none => .error e

/-- Replace the node at a place by a value of the same type. -/
def replaceWhole (place : Path) (patch : Patch) : Except PatchError Model := do
  if patch.op = .remove then throw (.wholeTarget place)
  match m.schema.typeAt m.type place with
  | none => .error (.pathNotFound place)
  | some id =>
    match patch.value? with
    | none => .error (.validation ⟨place, .missing⟩)
    | some given =>
      if given.isNull then throw (.validation ⟨place, .missing⟩)
      let value ← (m.schema.instantiate id given place).mapError .validation
      match m.data.replace? value place with
      | some data => .ok { m with data }
      | none => .error (.pathNotFound place)

/-- Make an edit. -/
def carryOut (p : Plan) : Except PatchError Model :=
  match m.data.modify? (p.edit.apply p.seg) p.container with
  | some data => .ok { m with data }
  | none => .error (.notAContainer p.container)

end Model

namespace ModelRef

variable (r : ModelRef)

/-- Apply a patch to what a reference names. -/
def applyTo (m : Model) (patch : Patch) : Except PatchError (Change × Model) :=
  match Pointer.split patch.path with
  | none => .error (.invalidPointer patch.path)
  | some [] => do
    let m ← m.replaceWhole r.path patch
    .ok (⟨r.model, r.path, none⟩, m)
  | some (token :: tokens) => do
    let parents := (token :: tokens).dropLast
    let last := (token :: tokens).getLast (by simp)
    let plan ← m.plan r.path parents last patch
    let m ← m.carryOut plan
    .ok (plan.change r.model, m)

/-- Apply a patch, giving what was changed and the models after it. -/
def apply (models : Models) (patch : Patch) : Except PatchError (Change × Models) :=
  match r.model? models with
  | none => .error (.pathNotFound r.path)
  | some m => do
    let (change, m) ← r.applyTo m patch
    .ok (change, IdMap.insert r.model m models)

end ModelRef

end BoundView
