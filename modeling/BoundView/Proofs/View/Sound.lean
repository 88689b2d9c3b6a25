import BoundView.Proofs.View.Places
import BoundView.Proofs.View.Trees

/-!
# Stages that show what they should

A boundary is fresh when its output shows its node over the models as they are, and all that the
output hangs on is subscribed to.  A stage is sound when every boundary is fresh but those that are
known to be stale.  Main statement: in a sound stage without stale boundaries every boundary shows
the picture of its node.
-/

namespace BoundView

open ViewNode (picture)

/-- A scope that holds on to nothing but composite nodes. -/
def Context.Settled (models : Models) (ctx : Context) : Prop :=
  ctx.Near (fun q => q.Composite models) ctx

namespace Stage

variable (model : ModelId) (s : Stage)

/-- What holds of a boundary whatever becomes of the models. -/
structure Standing (id : BoundaryId) (b : Boundary) : Prop where
  scope : b.context.Scope model
  tidy : b.node.Tidy
  aligned : ∀ count, s.Aligned model b.children (ViewNode.partsOf b.role b.node count)
  children : ∀ c ∈ b.children, id < c ∧ ∃ p, s.place? c = some p ∧ p.parent? = some id

/-- A boundary whose output shows its node over the models as they are. -/
def Fresh (id : BoundaryId) (b : Boundary) : Prop :=
  ViewNode.ShownAs s.live.models (s.cast model) (fun d => d ∈ s.dependencies id) b.context b.role
    b.node b.output b.children

/-- The boundaries of one mounted node over a model, all of which are fresh but the stale ones.
Those whose scope holds on to what is gone are left to their parents. -/
structure Sound (root : BoundaryId) (node : ViewNode) (stale : List BoundaryId) : Prop where
  place_root : s.place? root = some ⟨.view, node, .root model, none⟩
  root_le : ∀ id b, s.boundary? id = some b → root ≤ id
  le_lastId : ∀ id b, s.boundary? id = some b → id ≤ s.lastId
  standing : ∀ id b, s.boundary? id = some b → Standing model s id b
  listed : ∀ id p parent, s.place? id = some p → p.parent? = some parent →
    ∃ b, s.boundary? parent = some b ∧ id ∈ b.children
  context_root : ∀ id p, s.place? id = some p → p.parent? = none → p.context = .root model
  fresh : ∀ id b, s.boundary? id = some b → id ∉ stale → b.context.Settled s.live.models →
    Fresh model s id b

variable {model s} {s' : Stage} {root id : BoundaryId} {node : ViewNode} {b : Boundary}

theorem cast_carry {role : Role} {scope : Context}
    (hplace : ∀ p, s.place? id = some p → s'.place? id = some p)
    (h : s.cast model id role node scope) : s'.cast model id role node scope := by
  obtain ⟨p, hp, hplays⟩ := h
  exact ⟨p, hplace p hp, hplays⟩

theorem Standing.carry (h : Standing model s id b)
    (hplaces : ∀ c ∈ b.children, ∀ p, s.place? c = some p → s'.place? c = some p) :
    Standing model s' id b where
  scope := h.scope
  tidy := h.tidy
  aligned count := (h.aligned count).imp hplaces
  children c hc := by
    obtain ⟨hlt, p, hp, hparent⟩ := h.children c hc
    exact ⟨hlt, p, hplaces c hc p hp, hparent⟩

theorem Fresh.carry (h : Fresh model s id b) (hmodels : s'.live.models = s.live.models)
    (hdependencies : s'.dependencies id = s.dependencies id)
    (hplaces : ∀ c ∈ b.children, ∀ p, s.place? c = some p → s'.place? c = some p) :
    Fresh model s' id b := by
  unfold Fresh
  rw [hmodels, hdependencies]
  exact ViewNode.ShownAs.imp (fun _ hd => hd) h fun c hc _ _ _ => cast_carry (hplaces c hc)

/-! ## Stages without stale boundaries -/

/-- Without stale boundaries no scope holds on to anything that is gone. -/
theorem Sound.settled (h : Sound model s root node []) (hmodels : s.live.models.Definite)
    (hroot : (ModelRef.root model).Composite s.live.models) (hb : s.boundary? id = some b) :
    b.context.Settled s.live.models := by
  -- A parent has a lower number, and it shows its children in scopes that hold on to what it read.
  induction id using Nat.strongRecOn generalizing b with
  | ind id ih =>
    cases hparent : b.parent? with
    | none =>
      have hcontext : b.context = .root model :=
        h.context_root id b.place (place?_of_boundary? hb) hparent
      rw [hcontext]
      exact Context.near_root hroot
    | some parent =>
      obtain ⟨b', hb', hmem⟩ := h.listed id b.place parent (place?_of_boundary? hb) hparent
      have hstanding := h.standing parent b' hb'
      have hsettled := ih parent (hstanding.children id hmem).1 hb'
      have hfresh := h.fresh parent b' hb' List.not_mem_nil hsettled
      obtain ⟨_, _, scope, ⟨p, hp, -, -, -, hnear⟩, hscope⟩ :=
        ViewNode.ShownAs.exists_part hmodels.twins_self hsettled hstanding.scope hroot
          hstanding.tidy hfresh hmem
      obtain rfl := Option.some.inj ((place?_of_boundary? hb).symm.trans hp)
      exact hnear.self hscope

/-- How many boundaries are mounted from a number on. -/
def countFrom (s : Stage) (id : BoundaryId) : Nat :=
  (s.boundaries.filter fun entry => decide (id ≤ entry.1)).length

theorem countFrom_le {c : BoundaryId} (h : id ≤ c) : s.countFrom c ≤ s.countFrom id := by
  refine (List.monotone_filter_right _ fun entry hc => ?_).length_le
  rw [decide_eq_true_eq] at hc ⊢
  exact Nat.le_trans h hc

theorem countFrom_lt {c : BoundaryId} (hb : s.boundary? id = some b) (hlt : id < c) :
    s.countFrom c < s.countFrom id := by
  have hfilter : (s.boundaries.filter fun entry => decide (c ≤ entry.1))
      = (s.boundaries.filter fun entry => decide (id ≤ entry.1)).filter
        fun entry => decide (c ≤ entry.1) := by
    rw [List.filter_filter]
    refine List.filter_congr fun entry _ => ?_
    rw [Bool.eq_iff_iff, Bool.and_eq_true, decide_eq_true_eq, decide_eq_true_eq]
    exact ⟨fun hle => ⟨hle, Nat.le_trans (Nat.le_of_lt hlt) hle⟩, fun hle => hle.1⟩
  rw [countFrom, hfilter]
  refine List.length_filter_lt_length_iff_exists.2 ⟨(id, b), ?_, ?_⟩
  · exact List.mem_filter.2 ⟨IdMap.mem_of_find? hb, decide_eq_true (Nat.le_refl id)⟩
  · rw [decide_eq_true_eq]
    exact Nat.not_le_of_lt hlt

/-- Every boundary shows the picture of its node, if the tree is deep enough for the boundaries
beneath it. -/
theorem Sound.toJson_treeWithin (h : Sound model s root node [])
    (hfresh : ∀ id b, s.boundary? id = some b → Fresh model s id b) {depth : Nat}
    (hb : s.boundary? id = some b) (hdepth : s.countFrom id ≤ depth) :
    (s.treeWithin depth id).toJson = picture s.live.models b.context b.node := by
  induction depth generalizing id b with
  | zero =>
    -- A boundary that is mounted is counted itself.
    have hlt := countFrom_lt hb (Nat.lt_succ_self id)
    omega
  | succ depth ih =>
    have hstanding := h.standing id b hb
    rw [treeWithin, output?, hb]
    refine (hfresh id b hb).tree_eq hstanding.scope hstanding.tidy ?_
    intro c hc role node scope hscope hplays
    obtain ⟨p, hp, -, rfl, hscope', hnear⟩ := hplays
    obtain ⟨b', hb', rfl⟩ := exists_boundary? hp
    -- A child has a higher number, so fewer boundaries are mounted from it on.
    have hlt := countFrom_lt hb (hstanding.children c hc).1
    rw [ih hb' (by omega)]
    exact ViewNode.picture_eq_of_near (h.standing c b' hb').tidy hscope' hscope hnear

/-- Without stale boundaries the tree of the root is the picture of what was mounted. -/
theorem Sound.toJson_tree (h : Sound model s root node []) (hmodels : s.live.models.Definite)
    (hroot : (ModelRef.root model).Composite s.live.models) :
    (s.tree root).toJson = picture s.live.models (.root model) node := by
  obtain ⟨b, hb, hplace⟩ := exists_boundary? h.place_root
  obtain ⟨-, rfl, hcontext, -⟩ := Place.mk.inj hplace
  rw [← hcontext]
  exact h.toJson_treeWithin
    (fun id b hb => h.fresh id b hb List.not_mem_nil (h.settled hmodels hroot hb)) hb
    (List.length_filter_le _ _)

end Stage

end BoundView
