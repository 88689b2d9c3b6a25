import BoundView.Model.Computed
import BoundView.Model.Patch
import BoundView.Reactive.Observers
import BoundView.Schema.Minimal

/-!
# Live models

Models together with those who observe them.  A reading of an observer subscribes it to what it
read, and an edit marks the observers that it affects.
-/

namespace BoundView

structure Live where
  observers : Observers
  models : Models

namespace Live

def empty : Live :=
  ⟨.empty, []⟩

/-- A new observer. -/
def newObserver (l : Live) : ObserverId × Live :=
  let (id, observers) := l.observers.fresh
  (id, { l with observers })

/-- A new model of an object type, from the value that is given for it. -/
def create (l : Live) (schema : Schema) (type : TypeId) (initial : Json) :
    Except ValidationError (ModelId × Live) := do
  if (schema.object? type).isNone then throw ⟨[], .notObject (schema.kindName type)⟩
  -- A model gets its number only when its data are found valid.
  let data ← schema.instantiate type initial []
  let (id, observers) := l.observers.fresh
  .ok (id, ⟨observers, IdMap.insert id ⟨schema, type, data⟩ l.models⟩)

/-- The value that a model of a type starts from when none is given. -/
def initial (schema : Schema) (type : TypeId) (data? : Option Json) : Json :=
  data?.getD (schema.minimalValue type)

/-- The stored document of a model. -/
def data (l : Live) (id : ModelId) : Json :=
  match IdMap.find? id l.models with
  | some model => model.data
  | none => .null

/-- Apply a patch and mark those whom the change affects. -/
def apply (l : Live) (r : ModelRef) (patch : Patch) : Except PatchError (Change × Live) := do
  let (change, models) ← r.apply l.models patch
  .ok (change, ⟨(l.observers.notify change).2, models⟩)

/-- Read outside of any evaluation: nobody depends on it. -/
def look {α : Type} (l : Live) (m : Reading α) : α × List Event :=
  let (a, trace) := m l.models
  (a, trace.events)

/-- Read on behalf of an observer. -/
def track {α : Type} (l : Live) (observer : ObserverId) (m : Reading α) :
    α × List Event × Live :=
  let (a, trace) := m l.models
  (a, trace.events, { l with observers := l.observers.settle observer trace.reads })

end Live

end BoundView
