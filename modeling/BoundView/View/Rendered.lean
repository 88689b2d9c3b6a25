import BoundView.Text.Quoted
import BoundView.Value.Reading

/-!
# What a view is rendered to

Elements and collections are boundaries of their own and stand in the output of another boundary
only by their numbers.
-/

namespace BoundView

abbrev BoundaryId := ObserverId

/-- An expression together with the names that it saw where it was met. -/
structure EventHandler where
  expression : String
  context : Context

inductive Rendered where
  | value (v : Value)
  | handler (h : EventHandler)
  | sequence (items : List Rendered)
  | host (tag : String) (props : List (String × Rendered))
  | boundary (id : BoundaryId)
  | raw (document : Json)

namespace Rendered

instance : Inhabited Rendered := ⟨.value .undefined⟩

mutual

/-- Depend on every value that is handed to the host. -/
def observeDeep : Rendered → Reading Unit
  | .value v => v.observeDeep
  | .sequence items => observeItems items
  | .host _ props => observeProps props
  | _ => pure ()

def observeItems : List Rendered → Reading Unit
  | [] => pure ()
  | item :: rest => do
    observeDeep item
    observeItems rest

def observeProps : List (String × Rendered) → Reading Unit
  | [] => pure ()
  | (_, prop) :: rest => do
    observeDeep prop
    observeProps rest

end

end Rendered

/-! ## Components -/

/-- What an element with certain properties is rendered to. -/
abbrev Component := Members Rendered → Rendered

namespace Component

/-- A host element with fixed properties, which given ones come behind or replace. -/
def host (tag : String) (fixed : Members Rendered) : Component :=
  fun props => .host tag (Members.merge fixed props)

end Component

/-- Components by the tags that they stand for. -/
abbrev Registry := Members Component

namespace Registry

def empty : Registry :=
  []

def register (name : String) (component : Component) (r : Registry) : Registry :=
  Members.set name component r

/-- `Button` is the host's button; `undefined` shows the tag that came from a missing value. -/
def standard : Registry :=
  [("Button", Component.host "button" [("className", .value (.string "button"))]),
    ("undefined", fun _ => .value (.string "undefined"))]

/-- The registered tags, in their order. -/
def summary (r : Registry) : String :=
  let names := (Members.keys r).mergeSort fun a b => !decide (b < a)
  "ComponentRegistry \x7b components: ["
    ++ String.intercalate ", " (names.map Text.quote) ++ "] \x7d"

end Registry

end BoundView
