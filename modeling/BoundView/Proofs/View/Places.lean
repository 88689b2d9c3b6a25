import BoundView.Proofs.IdMap
import BoundView.Proofs.Reactive.Subscriptions
import BoundView.Proofs.View.Shown

/-!
# Boundaries in their places

A boundary keeps its role, its node, its scope and its parent for as long as it is mounted.  The
node of its parent tells in which order the parent asks for which parts, so its position among the
children of the parent gives its role and its node, and only its scope has to be compared.
-/

namespace BoundView

/-! ## The parts that a node asks for -/

namespace ViewNode

mutual

/-- The boundaries that a node is rendered to, in their order. -/
def parts : ViewNode → List (Role × ViewNode)
  | .sequence items => partsAll items
  | .collection source template => [(.collection, .collection source template)]
  | .element tag props => [(.element, .element tag props)]
  | _ => []

def partsAll : List ViewNode → List (Role × ViewNode)
  | [] => []
  | item :: rest => parts item ++ partsAll rest

end

def partsProps : List (String × ViewNode) → List (Role × ViewNode)
  | [] => []
  | (_, prop) :: rest => parts prop ++ partsProps rest

/-- The parts that the boundary of a role asks for, a collection for so many items. -/
def partsOf (role : Role) (node : ViewNode) (count : Nat) : List (Role × ViewNode) :=
  match role, node with
  | .element, .element _ props => partsProps props
  | .collection, .collection source template =>
    parts source ++ List.replicate count (.item, template)
  | _, node => parts node

theorem partsOf_other {role : Role} {node : ViewNode}
    (helement : ∀ tag props, role = .element → node = .element tag props → False)
    (hcollection : ∀ source template, role = .collection → node = .collection source template →
      False) (count : Nat) : partsOf role node count = parts node := by
  unfold partsOf
  split
  · exact (helement _ _ rfl rfl).elim
  · exact (hcollection _ _ rfl rfl).elim
  · rfl

end ViewNode

/-! ## Places -/

/-- What a boundary is for as long as it is mounted. -/
structure Place where
  role : Role
  node : ViewNode
  context : Context
  parent? : Option BoundaryId

def Boundary.place (b : Boundary) : Place :=
  ⟨b.role, b.node, b.context, b.parent?⟩

namespace Stage

variable (model : ModelId) (s : Stage)

def place? (id : BoundaryId) : Option Place :=
  (s.boundary? id).map Boundary.place

/-- What a boundary depends on. -/
def dependencies (id : BoundaryId) : List Dependency :=
  s.live.observers.dependencies id

/-- The number that was given last. -/
def lastId : Nat :=
  s.live.observers.lastId

/-- The mounted boundaries as those that stand for nodes in scopes. -/
def cast : Cast := fun id role node scope =>
  ∃ p, s.place? id = some p ∧ p.role = role ∧ p.node = node ∧ p.context.Scope model
    ∧ p.context.Near (fun _ => True) scope

/-- A boundary that is mounted for a part. -/
def Fills (id : BoundaryId) (part : Role × ViewNode) : Prop :=
  ∃ p, s.place? id = some p ∧ p.role = part.1 ∧ p.node = part.2 ∧ p.context.Scope model

/-- Boundaries that are mounted for the parts at the same positions, as far as there are both. -/
def Aligned (ids : List BoundaryId) (parts : List (Role × ViewNode)) : Prop :=
  ∀ pair ∈ ids.zip parts, s.Fills model pair.1 pair.2

variable {model s} {s' : Stage} {id other : BoundaryId}

theorem boundary?_modifyBoundary_self (f : Boundary → Boundary) :
    (s.modifyBoundary id f).boundary? id = (s.boundary? id).map f :=
  IdMap.find?_modify_self f

theorem boundary?_modifyBoundary_of_ne (f : Boundary → Boundary) (h : other ≠ id) :
    (s.modifyBoundary id f).boundary? other = s.boundary? other :=
  IdMap.find?_modify_of_ne f h

theorem place?_modifyBoundary {f : Boundary → Boundary} (hf : ∀ b, (f b).place = b.place) :
    (s.modifyBoundary id f).place? other = s.place? other := by
  unfold place?
  by_cases h : other = id
  · subst h
    rw [boundary?_modifyBoundary_self, Option.map_map]
    exact congrArg (Option.map · _) (funext hf)
  · rw [boundary?_modifyBoundary_of_ne f h]

theorem place?_of_boundary? {b : Boundary} (h : s.boundary? id = some b) :
    s.place? id = some b.place := by
  rw [place?, h]
  rfl

theorem exists_boundary? {p : Place} (h : s.place? id = some p) :
    ∃ b, s.boundary? id = some b ∧ b.place = p :=
  Option.map_eq_some_iff.1 h

theorem cast_lenient : (s.cast model).Lenient := by
  intro id role node scope scope' hnear hplays
  obtain ⟨p, hp, hrole, hnode, hscope, hcontext⟩ := hplays
  exact ⟨p, hp, hrole, hnode, hscope, (hcontext.trans hnear).mono fun _ _ => trivial⟩

theorem Fills.of_cast {role : Role} {node : ViewNode} {scope : Context}
    (h : s.cast model id role node scope) : s.Fills model id (role, node) := by
  obtain ⟨p, hp, hrole, hnode, hscope, -⟩ := h
  exact ⟨p, hp, hrole, hnode, hscope⟩

/-! ## Children in the order of parts -/

theorem Aligned.head {parts : List (Role × ViewNode)} {part : Role × ViewNode}
    {rest : List BoundaryId} (h : s.Aligned model (id :: rest) (part :: parts)) :
    s.Fills model id part :=
  h (id, part) List.mem_cons_self

theorem Aligned.drop {ids : List BoundaryId} {parts more : List (Role × ViewNode)}
    (h : s.Aligned model ids (parts ++ more)) : s.Aligned model (ids.drop parts.length) more := by
  intro pair hpair
  refine h pair ?_
  have hdrop : ((ids.zip (parts ++ more)).drop parts.length)
      = (ids.drop parts.length).zip more := by
    rw [List.zip, List.drop_zipWith, List.drop_left]
  exact List.mem_of_mem_drop (hdrop ▸ hpair)

theorem Aligned.of_forall₂ {ids : List BoundaryId} {parts : List (Role × ViewNode)}
    (h : List.Forall₂ (s.Fills model) ids parts) : s.Aligned model ids parts :=
  fun _ hpair => List.forall₂_zip h hpair

theorem Aligned.append {ids others : List BoundaryId} {parts more : List (Role × ViewNode)}
    (h : List.Forall₂ (s.Fills model) ids parts) (h' : s.Aligned model others more) :
    s.Aligned model (ids ++ others) (parts ++ more) := by
  intro pair hpair
  rw [List.zip_append h.length_eq] at hpair
  rcases List.mem_append.1 hpair with hpair | hpair
  · exact Aligned.of_forall₂ h pair hpair
  · exact h' pair hpair

theorem Aligned.imp {ids : List BoundaryId} {parts : List (Role × ViewNode)}
    (h : s.Aligned model ids parts)
    (hplaces : ∀ id ∈ ids, ∀ p, s.place? id = some p → s'.place? id = some p) :
    s'.Aligned model ids parts := by
  intro pair hpair
  obtain ⟨p, hp, hfills⟩ := h pair hpair
  exact ⟨p, hplaces pair.1 (List.of_mem_zip hpair).1 p hp, hfills⟩

end Stage

open Stage

namespace ViewNode

variable {models : Models} {model : ModelId} {s : Stage} {known : Dependency → Prop}
  {ctx : Context}

mutual

/-- The boundaries in an output are those that its node asks for. -/
theorem Shown.fills : ∀ {node : ViewNode} {out : Rendered} {ids : List BoundaryId},
    Shown models (s.cast model) known ctx node out ids →
      List.Forall₂ (s.Fills model) ids (parts node)
  | _, _, _, .literal _ => .nil
  | _, _, _, .read _ _ _ => .nil
  | _, _, _, .write _ _ => .nil
  | _, _, _, .sequence h => ShownAll.fills h
  | _, _, _, .collection h => .cons (.of_cast h) .nil
  | _, _, _, .element h => .cons (.of_cast h) .nil
  | _, _, _, .raw _ => .nil

theorem ShownAll.fills : ∀ {items : List ViewNode} {outs : List Rendered} {ids : List BoundaryId},
    ShownAll models (s.cast model) known ctx items outs ids →
      List.Forall₂ (s.Fills model) ids (partsAll items)
  | _, _, _, .nil => .nil
  | _, _, _, .cons h hs => List.rel_append (Shown.fills h) (ShownAll.fills hs)

end

theorem ShownProps.fills {props : List (String × ViewNode)} {outs : List (String × Rendered)}
    {ids : List BoundaryId} (h : ShownProps models (s.cast model) known ctx props outs ids) :
    List.Forall₂ (s.Fills model) ids (partsProps props) := by
  induction h with
  | nil => exact .nil
  | cons h _ ih => exact List.rel_append h.fills ih

theorem ShownItems.aligned {template : ViewNode} {index : Nat} {items : List Value}
    {ids : List BoundaryId} (h : ShownItems (s.cast model) ctx template index items ids)
    (count : Nat) : s.Aligned model ids (List.replicate count (.item, template)) := by
  induction h generalizing count with
  | nil => exact fun _ hpair => absurd hpair List.not_mem_nil
  | cons h _ ih =>
    -- There may be more items than positions to fill, or fewer.
    cases count with
    | zero => exact fun _ hpair => absurd hpair (by simp)
    | succ count =>
      intro pair hpair
      rw [List.replicate_succ, List.zip_cons_cons] at hpair
      rcases List.mem_cons.1 hpair with rfl | hpair
      · exact .of_cast h
      · exact ih count pair hpair

theorem ShownAs.aligned {role : Role} {node : ViewNode} {out : Rendered} {ids : List BoundaryId}
    (h : ShownAs models (s.cast model) known ctx role node out ids) (count : Nat) :
    s.Aligned model ids (partsOf role node count) := by
  unfold ShownAs at h
  split at h
  · obtain ⟨outs, hprops, -⟩ := h
    exact .of_forall₂ hprops.fills
  · obtain ⟨sourceOut, sourceIds, itemIds, hsource, -, hitems, rfl, -⟩ := h
    exact .append hsource.fills (hitems.aligned count)
  · rename_i helement hcollection
    rw [partsOf_other helement hcollection]
    exact .of_forall₂ (Shown.fills h)

end ViewNode

end BoundView
