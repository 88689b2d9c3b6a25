import BoundView.Model.Live
import BoundView.View.Node
import BoundView.View.Rendered

/-!
# Boundaries

Every element, every collection and every element of a collection is a boundary of its own: it is
rendered on behalf of an observer, so that it is rendered again only when something that it read has
changed.  Boundaries form a forest.  A boundary that is rendered again asks for its children one by
one; the child that stood at the same position before is kept if its node and its context are
unchanged, and otherwise a new one is made.  Children that were not asked for are dropped.
-/

namespace BoundView

inductive Role where
  /-- The root of a mounted view. -/
  | view
  | element
  | collection
  /-- One position of a collection. -/
  | item
  deriving DecidableEq, Repr

structure Boundary where
  role : Role
  node : ViewNode
  context : Context
  parent? : Option BoundaryId
  children : List BoundaryId
  output : Rendered
  /-- How often it was rendered. -/
  renders : Nat

/-- Live models and the boundaries that show them. -/
structure Stage where
  live : Live
  boundaries : IdMap Boundary

namespace Stage

variable (s : Stage)

def boundary? (id : BoundaryId) : Option Boundary :=
  IdMap.find? id s.boundaries

def isMounted (id : BoundaryId) : Bool :=
  IdMap.contains id s.boundaries

def mounted : Nat :=
  s.boundaries.length

/-- The boundaries that belong to no other. -/
def roots : List BoundaryId :=
  IdMap.keys (s.boundaries.filter fun entry => entry.2.parent?.isNone)

def renders (id : BoundaryId) : Nat :=
  ((s.boundary? id).map Boundary.renders).getD 0

def children (id : BoundaryId) : List BoundaryId :=
  ((s.boundary? id).map Boundary.children).getD []

def output? (id : BoundaryId) : Option Rendered :=
  (s.boundary? id).map Boundary.output

def modifyBoundary (id : BoundaryId) (f : Boundary → Boundary) : Stage :=
  { s with boundaries := IdMap.modify id f s.boundaries }

def modifyObservers (f : Observers → Observers) : Stage :=
  { s with live := { s.live with observers := f s.live.observers } }

/-- Take a boundary away, without what is beneath it. -/
def removeBoundary (id : BoundaryId) : Stage :=
  { s.modifyObservers (·.unsubscribe id) with boundaries := IdMap.erase id s.boundaries }

/-- The children of all boundaries. -/
def kin : List BoundaryId :=
  s.boundaries.flatMap fun entry => entry.2.children

theorem length_kin_removeBoundary {s : Stage} {id : BoundaryId} {b : Boundary}
    (h : s.boundary? id = some b) :
    (s.removeBoundary id).kin.length + b.children.length ≤ s.kin.length :=
  IdMap.length_flatMap_erase_add_le Boundary.children h

/-- Take boundaries away with everything beneath them. -/
def drop (s : Stage) : List BoundaryId → Stage
  | [] => s
  | id :: rest =>
    match _h : s.boundary? id with
    | none => s.drop rest
    | some b => (s.removeBoundary id).drop (b.children ++ rest)
termination_by ids => s.kin.length + ids.length
decreasing_by
  · exact Nat.lt_succ_self _
  · have hkin := length_kin_removeBoundary _h
    simp only [List.length_append, List.length_cons]
    omega

/-- Take a boundary away, also from the children of its parent. -/
def unmount (id : BoundaryId) : Stage :=
  let parent? := (s.boundary? id).bind Boundary.parent?
  let s :=
    match parent? with
    | some parent =>
      s.modifyBoundary parent fun b => { b with children := b.children.filter (· ≠ id) }
    | none => s
  s.drop [id]

def unmountAll : Stage :=
  s.drop s.roots

/-- Whether a boundary shows just this. -/
def shows (role : Role) (node : ViewNode) (ctx : Context) (id : BoundaryId) : Bool :=
  match s.boundary? id with
  | some b => b.role = role && b.node == node && Value.map b.context == Value.map ctx
  | none => false

end Stage

/-! ## Renderings -/

/-- The boundary that is being rendered, with its former children that were not asked for yet and
the children that it has got so far. -/
structure Frame where
  owner : BoundaryId
  previous : List BoundaryId
  children : List BoundaryId
  deriving DecidableEq, Repr

structure Rendering.Result (α : Type) where
  value : α
  trace : Trace
  stage : Stage
  frame? : Option Frame

/-- What is done inside a boundary, or outside of any. -/
def Rendering (α : Type) : Type :=
  Stage → Option Frame → Rendering.Result α

namespace Rendering

variable {α β : Type}

protected def pure (a : α) : Rendering α :=
  fun stage frame? => ⟨a, .empty, stage, frame?⟩

protected def bind (m : Rendering α) (f : α → Rendering β) : Rendering β := fun stage frame? =>
  let first := m stage frame?
  let second := f first.value first.stage first.frame?
  { second with trace := first.trace.append second.trace }

instance : Monad Rendering where
  pure := Rendering.pure
  bind := Rendering.bind

def ofReading (m : Reading α) : Rendering α := fun stage frame? =>
  let (a, trace) := m stage.live.models
  ⟨a, trace, stage, frame?⟩

/-- Render a boundary by `body`: what `body` reads becomes its subscriptions, and the children that
`body` asks for become its children. -/
def render (id : BoundaryId) (body : Rendering Rendered) : Rendering Unit := fun stage frame? =>
  match stage.boundary? id with
  | none => ⟨(), .empty, stage, frame?⟩
  | some b =>
    let opened := stage.modifyBoundary id fun b => { b with children := [] }
    let result := body opened (some ⟨id, b.children, []⟩)
    let children :=
      match result.frame? with
      | some frame => frame.children
      | none => []
    -- Subscriptions are renewed before the children that are left over give up theirs.
    let settled := result.stage.modifyObservers (·.settle id result.trace.reads)
    let kept := settled.drop (b.children.filter fun child => !children.contains child)
    let finished := kept.modifyBoundary id fun b =>
      { b with children, output := result.value, renders := b.renders + 1 }
    ⟨(), ⟨[], result.trace.events⟩, finished, frame?⟩

/-- Make a boundary and render it. -/
def spawn (role : Role) (node : ViewNode) (ctx : Context) (parent? : Option BoundaryId)
    (body : Rendering Rendered) : Rendering BoundaryId := fun stage frame? =>
  let (id, live) := stage.live.newObserver
  let fresh : Boundary := ⟨role, node, ctx, parent?, [], .value .undefined, 0⟩
  let stage : Stage := ⟨live, IdMap.insert id fresh stage.boundaries⟩
  { render id body stage frame? with value := id }

/-- The next child of the boundary that is being rendered: the former one at this position if it
shows the same, and otherwise a new one.  Outside of any boundary it is a root. -/
def child (role : Role) (node : ViewNode) (ctx : Context) (body : Rendering Rendered) :
    Rendering BoundaryId := fun stage frame? =>
  match frame? with
  | none => spawn role node ctx none body stage none
  | some frame =>
    -- The position is used up even where the child that stood there does not fit.
    let next := { frame with previous := frame.previous.tail }
    match frame.previous.head?.filter (stage.shows role node ctx) with
    | some id => ⟨id, .empty, stage, some { next with children := next.children ++ [id] }⟩
    | none =>
      let result := spawn role node ctx (some frame.owner) body stage (some next)
      { result with
        frame? := some { next with children := next.children ++ [result.value] } }

/-- Do something outside of any boundary: nobody depends on what is read. -/
def perform (m : Rendering α) (stage : Stage) : α × List Event × Stage :=
  let result := m stage none
  (result.value, result.trace.events, result.stage)

end Rendering

end BoundView
