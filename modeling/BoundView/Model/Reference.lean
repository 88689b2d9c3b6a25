import BoundView.IdMap
import BoundView.Reactive.Dependency
import BoundView.Schema.Basic

/-!
# Models and references

A model is a document of an object type of a schema.  A reference names a node of a model by its
place: it leads to whatever stands there when it is followed, or to nothing.
-/

namespace BoundView

structure Model where
  schema : Schema
  type : TypeId
  /-- A value of the type, as `Schema.instantiate` gives it. -/
  data : Json

abbrev Models := IdMap Model

structure ModelRef where
  model : ModelId
  path : Path
  deriving DecidableEq, Repr

namespace ModelRef

def root (model : ModelId) : ModelRef :=
  ⟨model, []⟩

def child (r : ModelRef) (seg : Seg) : ModelRef :=
  { r with path := r.path ++ [seg] }

def model? (r : ModelRef) (models : Models) : Option Model :=
  IdMap.find? r.model models

/-- What stands at a reference. -/
def node? (r : ModelRef) (models : Models) : Option Json :=
  (r.model? models).bind fun model => model.data.get? r.path

def isArray (r : ModelRef) (models : Models) : Bool :=
  match r.node? models with
  | some (.array _) => true
  | _ => false

/-- The type of what stands at a reference. -/
def typeId? (r : ModelRef) (models : Models) : Option TypeId :=
  (r.model? models).bind fun model => model.schema.typeAt model.type r.path

/-- The object type of what stands at a reference. -/
def objectType? (r : ModelRef) (models : Models) : Option ObjectType :=
  (r.model? models).bind fun model =>
    (model.schema.typeAt model.type r.path).bind model.schema.object?

/-- The expression of a computed field. -/
def computed? (r : ModelRef) (name : String) (models : Models) : Option String :=
  (r.objectType? models).bind fun type => Members.find? name type.computed

def dependency (r : ModelRef) (deep : Bool) : Dependency :=
  ⟨r.model, r.path, deep⟩

end ModelRef

end BoundView
