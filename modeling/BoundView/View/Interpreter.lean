import BoundView.Text.UpperCase
import BoundView.View.Stage

/-!
# Rendering views

An interpreter turns the nodes of a view into what is shown.  Its components and the way in which it
evaluates expressions are fixed when it is made.
-/

namespace BoundView

/-- How the text of an expression is evaluated. -/
abbrev Evaluator := String → Context → Reading.Fallible Value

namespace Evaluator

/-- The expressions of this library. -/
def standard : Evaluator :=
  Expr.valueOf

/-- Every expression stands for its own text in upper case. -/
def upper : Evaluator :=
  fun source _ => pure (.string (Text.upperCase source))

end Evaluator

structure Interpreter where
  registry : Registry
  evaluator : Evaluator

namespace Interpreter

open Rendering (ofReading child)

variable (v : Interpreter)

/-- The value of a binding; it is undefined where the evaluation fails. -/
def readBinding (expression : String) (ctx : Context) : Reading Value :=
  Reading.orUndefined (.readFailed expression) (v.evaluator expression ctx)

/-- What an element with these properties is rendered to. -/
def renderElement (tag : String) (props : Rendering (Members Rendered)) : Rendering Rendered := do
  let props ← props
  match Members.find? tag v.registry with
  | some component => pure (component props)
  | none => pure (.host tag props)

/-- The values that a collection goes through. -/
def elementsOf : Rendered → Reading (List Value)
  | .value value => do pure ((← value.items?).getD [])
  | .sequence items => pure (items.map fun | .value value => value | _ => .undefined)
  | _ => pure []

/-- What an element of a collection sees. -/
def itemContext (ctx : Context) (item : Value) (index : Nat) : Context :=
  Members.set "$index" (.number (Binary64.ofNat index)) (Members.set "$self" item ctx)

/-- The elements of a collection, from the one at `index` on. -/
def renderItems (template : ViewNode) (render : Context → Rendering Rendered) (ctx : Context)
    (index : Nat) : List Value → Rendering (List Rendered)
  | [] => pure []
  | item :: rest => do
    let scope := itemContext ctx item index
    let id ← child .item template scope (render scope)
    let others ← renderItems template render ctx (index + 1) rest
    pure (.boundary id :: others)

/-- What a collection is rendered to, with the renderings of its source and its template. -/
def renderCollection (source : Rendering Rendered) (template : ViewNode)
    (render : Context → Rendering Rendered) (ctx : Context) : Rendering Rendered := do
  let source ← source
  let items ← ofReading (elementsOf source)
  let rendered ← renderItems template render ctx 0 items
  pure (.sequence rendered)

mutual

/-- What a node is rendered to inside the boundary that is being rendered. -/
def resolve (ctx : Context) : ViewNode → Rendering Rendered
  | .literal value => pure (.value value)
  | .read expression => do
    let value ← ofReading (v.readBinding expression ctx)
    pure (.value value)
  | .write expression => pure (.handler ⟨expression, ctx⟩)
  | .sequence items => do
    let items ← resolveItems ctx items
    pure (.sequence items)
  | .collection source template => do
    let id ← child .collection (.collection source template) ctx
      (renderCollection (resolve ctx source) template (fun scope => resolve scope template) ctx)
    pure (.boundary id)
  | .element tag props => do
    let id ← child .element (.element tag props) ctx (v.renderElement tag (resolveProps ctx props))
    pure (.boundary id)
  | .raw document => pure (.raw document)

def resolveItems (ctx : Context) : List ViewNode → Rendering (List Rendered)
  | [] => pure []
  | item :: rest => do
    let first ← resolve ctx item
    let others ← resolveItems ctx rest
    pure (first :: others)

/-- The properties of an element, which depends on everything that they hand to the host. -/
def resolveProps (ctx : Context) : List (String × ViewNode) → Rendering (Members Rendered)
  | [] => pure []
  | (name, prop) :: rest => do
    let first ← resolve ctx prop
    -- The host gets the value as a whole, whatever part of it will matter.
    ofReading first.observeDeep
    let others ← resolveProps ctx rest
    pure ((name, first) :: others)

end

/-- What a boundary shows. -/
def evaluate (role : Role) (node : ViewNode) (ctx : Context) : Rendering Rendered :=
  match role, node with
  | .element, .element tag props => v.renderElement tag (v.resolveProps ctx props)
  | .collection, .collection source template =>
    renderCollection (v.resolve ctx source) template (fun scope => v.resolve scope template) ctx
  | _, node => v.resolve ctx node

/-- Render a boundary again. -/
def rerender (id : BoundaryId) : Rendering Unit := fun stage frame? =>
  match stage.boundary? id with
  | none => ⟨(), .empty, stage, frame?⟩
  | some b => Rendering.render id (v.evaluate b.role b.node b.context) stage frame?

/-- Mount a view as a root. -/
def mount (node : ViewNode) (ctx : Context) : Rendering BoundaryId :=
  Rendering.spawn .view node ctx none (v.evaluate .view node ctx)

def renderView (document : ViewDocument) (ctx : Context) : Rendering BoundaryId :=
  v.mount document.shown ctx

/-- Render those boundaries again that are mounted, in order, and count them. -/
def rerenderAll : List BoundaryId → Rendering Nat
  | [] => pure 0
  | id :: rest => fun stage frame? =>
    -- A parent that was rendered before may have dropped it.
    if stage.isMounted id then
      (do
        v.rerender id
        let others ← rerenderAll rest
        pure (others + 1)) stage frame?
    else rerenderAll rest stage frame?

/-- Render again what was affected by changes since the last flush, parents before the children
that they own. -/
def flush : Rendering Nat := fun stage frame? =>
  let (ids, observers) := stage.live.observers.takePending
  v.rerenderAll ids { stage with live := { stage.live with observers } } frame?

end Interpreter

end BoundView
