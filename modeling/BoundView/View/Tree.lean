import BoundView.View.Stage

/-!
# The tree that the host shows

The output of a boundary with the outputs of the boundaries inside it put in their places.  A
boundary that is no longer mounted shows `null`.
-/

namespace BoundView

inductive RenderTree where
  | data (document : Json)
  | handler (h : EventHandler)
  | fragment (items : List RenderTree)
  | element (tag : String) (props : List (String × RenderTree))

namespace RenderTree

instance : Inhabited RenderTree := ⟨.data .null⟩

mutual

/-- An element is an object with its tag under `<>`, a handler the text of its binding. -/
def toJson : RenderTree → Json
  | .data document => document
  | .handler h => .string ("%" ++ h.expression)
  | .fragment items => .array (toItems items)
  | .element tag props => .object (Members.merge [("<>", .string tag)] (toMembers props))

def toItems : List RenderTree → List Json
  | [] => []
  | item :: rest => toJson item :: toItems rest

def toMembers : List (String × RenderTree) → List (String × Json)
  | [] => []
  | (name, prop) :: rest => (name, toJson prop) :: toMembers rest

end

mutual

/-- The first element with a tag; an element comes before what is inside it. -/
def find? (tag : String) : RenderTree → Option RenderTree
  | .element own props =>
    if own = tag then some (.element own props) else findProp? tag props
  | .fragment items => findItem? tag items
  | _ => none

def findItem? (tag : String) : List RenderTree → Option RenderTree
  | [] => none
  | item :: rest => (find? tag item).or (findItem? tag rest)

def findProp? (tag : String) : List (String × RenderTree) → Option RenderTree
  | [] => none
  | (_, prop) :: rest => (find? tag prop).or (findProp? tag rest)

end

def prop? (name : String) : RenderTree → Option RenderTree
  | .element _ props => Members.find? name props
  | _ => none

def handler? (name : String) (t : RenderTree) : Option EventHandler :=
  match t.prop? name with
  | some (.handler h) => some h
  | _ => none

def data? : RenderTree → Option Json
  | .data document => some document
  | _ => none

end RenderTree

namespace Rendered

mutual

/-- The tree of an output, where `inner` gives the trees of the boundaries inside. -/
def tree (models : Models) (inner : BoundaryId → RenderTree) : Rendered → RenderTree
  | .value v => .data (v.toJson models).1
  | .raw document => .data document
  | .handler h => .handler h
  | .sequence items => .fragment (treeItems models inner items)
  | .host tag props => .element tag (treeProps models inner props)
  | .boundary id => inner id

def treeItems (models : Models) (inner : BoundaryId → RenderTree) :
    List Rendered → List RenderTree
  | [] => []
  | item :: rest => tree models inner item :: treeItems models inner rest

def treeProps (models : Models) (inner : BoundaryId → RenderTree) :
    List (String × Rendered) → List (String × RenderTree)
  | [] => []
  | (name, prop) :: rest => (name, tree models inner prop) :: treeProps models inner rest

end

end Rendered

namespace Stage

variable (s : Stage)

/-- The tree of a boundary, with at most so many boundaries inside one another. -/
def treeWithin : Nat → BoundaryId → RenderTree
  | 0, _ => .data .null
  | depth + 1, id =>
    match s.output? id with
    | some output => output.tree s.live.models (treeWithin depth)
    | none => .data .null

/-- The tree of a boundary.  No boundary is inside itself, so all trees are less deep than there are
boundaries. -/
def tree (id : BoundaryId) : RenderTree :=
  s.treeWithin s.mounted id

/-- The tree of a mounted boundary. -/
def tree? (id : BoundaryId) : Option RenderTree :=
  if s.isMounted id then some (s.tree id) else none

/-- The tree of an output that stands outside of any boundary. -/
def treeOf (output : Rendered) : RenderTree :=
  output.tree s.live.models s.tree

end Stage

end BoundView
