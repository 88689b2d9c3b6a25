import BoundView.Proofs.View.Forest
import BoundView.Proofs.View.Growth

/-!
# Boundaries that are made and asked for

A body that shows a node, run on behalf of a new boundary, makes the boundary fresh.  A child that
is asked for is such a boundary, or the former one at its position, whose scope is near enough to
the one that is asked for.
-/

namespace BoundView

open ViewNode (ShownAs partsOf)

/-! ## The end of a rendering -/

/-- A boundary with what it was rendered to. -/
def Boundary.closed (b : Boundary) (ids : List BoundaryId) (out : Rendered) : Boundary :=
  { b with children := ids, output := out, renders := b.renders + 1 }

namespace Stage

variable {s : Stage} {id other : BoundaryId} {reads : List Dependency} {ids : List BoundaryId}
  {out : Rendered}

/-- Renew the subscriptions of a boundary. -/
def settle (s : Stage) (id : BoundaryId) (reads : List Dependency) : Stage :=
  s.modifyObservers (·.settle id reads)

/-- Take away the former children of a boundary. -/
def opened (s : Stage) (id : BoundaryId) : Stage :=
  s.modifyBoundary id fun b => { b with children := [] }

/-- Write down what a boundary was rendered to. -/
def close (s : Stage) (id : BoundaryId) (ids : List BoundaryId) (out : Rendered) : Stage :=
  s.modifyBoundary id fun b => { b with children := ids, output := out, renders := b.renders + 1 }

theorem place?_opened : (s.opened id).place? other = s.place? other :=
  place?_modifyBoundary fun _ => rfl

theorem place?_close : (s.close id ids out).place? other = s.place? other :=
  place?_modifyBoundary fun _ => rfl

theorem boundary?_close_of_ne (h : other ≠ id) :
    (s.close id ids out).boundary? other = s.boundary? other :=
  boundary?_modifyBoundary_of_ne _ h

theorem boundary?_close_self {b : Boundary} (h : s.boundary? id = some b) :
    (s.close id ids out).boundary? id = some (b.closed ids out) := by
  rw [close, boundary?_modifyBoundary_self, h]
  rfl

theorem mem_dependencies_settle {d : Dependency} :
    d ∈ (s.settle id reads).dependencies id ↔ d ∈ reads :=
  Observers.mem_dependencies_settle

theorem dependencies_settle_of_ne (h : other ≠ id) :
    (s.settle id reads).dependencies other = s.dependencies other :=
  Observers.dependencies_settle_of_ne h

end Stage

open Stage

namespace Rendering

variable {model : ModelId} {s : Stage} {id : BoundaryId} {b : Boundary} {body : Rendering Rendered}
  {frame? : Option Frame}

/-- What a rendering of a boundary comes to, once its children are known. -/
theorem render_eq (hb : s.boundary? id = some b) {f : Frame}
    (hframe : (body (s.opened id) (some ⟨id, b.children, []⟩)).frame? = some f) :
    render id body s frame? =
      ⟨(), ⟨[], (body (s.opened id) (some ⟨id, b.children, []⟩)).trace.events⟩,
        (((body (s.opened id) (some ⟨id, b.children, []⟩)).stage.settle id
          (body (s.opened id) (some ⟨id, b.children, []⟩)).trace.reads).drop
            (b.children.filter fun c => !f.children.contains c)).close id f.children
              (body (s.opened id) (some ⟨id, b.children, []⟩)).value, frame?⟩ := by
  unfold render
  rw [hb]
  show Result.mk () _ _ _ = _
  unfold Stage.opened at hframe ⊢
  rw [hframe]
  rfl

/-- A body that shows a node in a scope as the boundary of a role puts it out. -/
def Renders (model : ModelId) (role : Role) (node : ViewNode) (ctx : Context)
    (body : Rendering Rendered) : Prop :=
  ∀ s f, f.Ready s → (∀ count, s.Aligned model f.previous (partsOf role node count)) →
    Yields model s f body fun out ids s' reads =>
      ShownAs s.live.models (s'.cast model) (fun d => d ∈ reads) ctx role node out ids

variable {role : Role} {node : ViewNode} {ctx : Context} {parent? : Option BoundaryId}

/-- The stage with a new boundary that is not rendered yet. -/
def planted (s : Stage) (role : Role) (node : ViewNode) (ctx : Context)
    (parent? : Option BoundaryId) : Stage :=
  ⟨s.live.newObserver.2, IdMap.insert (s.lastId + 1) ⟨role, node, ctx, parent?, [],
    .value .undefined, 0⟩ s.boundaries⟩

theorem boundary?_planted_self : (planted s role node ctx parent?).boundary? (s.lastId + 1)
    = some ⟨role, node, ctx, parent?, [], .value .undefined, 0⟩ :=
  IdMap.find?_insert_self _ _ _

theorem boundary?_planted_of_ne (h : id ≠ s.lastId + 1) :
    (planted s role node ctx parent?).boundary? id = s.boundary? id :=
  IdMap.find?_insert_of_ne _ _ h

theorem extends_opened (hs : s.Bounded) (role : Role) (node : ViewNode) (ctx : Context)
    (parent? : Option BoundaryId) :
    Extends s ((planted s role node ctx parent?).opened (s.lastId + 1))
      ∧ ((planted s role node ctx parent?).opened (s.lastId + 1)).Bounded := by
  have hother : ∀ other, other ≠ s.lastId + 1 →
      ((planted s role node ctx parent?).opened (s.lastId + 1)).boundary? other
        = s.boundary? other := by
    intro other hne
    rw [opened, boundary?_modifyBoundary_of_ne _ hne, boundary?_planted_of_ne hne]
  refine ⟨⟨rfl, Nat.le_succ _, fun other hle => ?_, fun _ _ => rfl⟩, fun other b hb => ?_⟩
  · exact hother other (Nat.ne_of_lt (Nat.lt_succ_of_le hle))
  · by_cases hne : other = s.lastId + 1
    · exact Nat.le_of_eq hne
    · rw [hother other hne] at hb
      exact Nat.le_succ_of_le (hs other b hb)

/-- A new boundary is closed as it was planted, and whoever else is there stays as it is. -/
theorem boundary?_closed {s₁ s₂ : Stage} {b : Boundary} {reads : List Dependency}
    {ids : List BoundaryId} {out : Rendered} (hlast : s₁.lastId = id) (hextends : Extends s₁ s₂)
    (hb : s₁.boundary? id = some b) :
    ((s₂.settle id reads).close id ids out).boundary? id = some (b.closed ids out)
      ∧ ∀ c, c ≠ id → ((s₂.settle id reads).close id ids out).boundary? c = s₂.boundary? c :=
  ⟨boundary?_close_self ((hextends.boundary?_eq id (Nat.le_of_eq hlast.symm)).trans hb),
    fun _ hc => boundary?_close_of_ne hc⟩

/-- Closing a new boundary leaves it linked to the boundaries that were added for it. -/
theorem sprouts_close {s₁ s₂ : Stage} {b : Boundary} {reads : List Dependency}
    {ids : List BoundaryId} {out : Rendered} (hextends : Extends s s₁) (hid : s.lastId + 1 = id)
    (hlast : s₁.lastId = id) (hb : s₁.boundary? id = some b)
    (hsprouts : Sprouts s₁ s₂ (some id) ids)
    (horigin : ∀ c ∈ ids, id < c ∧ ∃ p, s₂.place? c = some p ∧ p.parent? = some id) :
    Sprouts s ((s₂.settle id reads).close id ids out) b.parent? [id] := by
  have hlt : s.lastId < id := Nat.lt_of_succ_le (Nat.le_of_eq hid)
  have hplaces : ∀ c p, s₂.place? c = some p →
      ((s₂.settle id reads).close id ids out).place? c = some p :=
    fun c p hp => place?_close.trans hp
  obtain ⟨hself, hother⟩ :=
    @boundary?_closed id s₁ s₂ b reads ids out hlast hsprouts.toExtends hb
  refine ⟨⟨?_, ?_, fun c hc => ?_, fun c hc => ?_⟩, fun c b' hc hb' => ?_⟩
  · exact hsprouts.models_eq.trans hextends.models_eq
  · exact Nat.le_trans hextends.lastId_le hsprouts.lastId_le
  · have hne : c ≠ id := Nat.ne_of_lt (Nat.lt_of_le_of_lt hc hlt)
    rw [hother c hne, hsprouts.boundary?_eq c (Nat.le_trans hc hextends.lastId_le),
      hextends.boundary?_eq c hc]
  · have hne : c ≠ id := Nat.ne_of_lt (Nat.lt_of_le_of_lt hc hlt)
    show (s₂.settle id reads).dependencies c = s.dependencies c
    rw [dependencies_settle_of_ne hne,
      hsprouts.dependencies_eq c (Nat.le_trans hc hextends.lastId_le),
        hextends.dependencies_eq c hc]
  -- An added boundary is the new one, or was added beneath it by its body.
  · by_cases hne : c = id
    · subst hne
      obtain rfl := Option.some.inj (hself.symm.trans hb')
      refine ⟨hlast ▸ hsprouts.lastId_le, fun c hc => ?_, .inl ⟨rfl, List.mem_singleton.2 rfl⟩⟩
      obtain ⟨hlt, p, hp, hparent⟩ := horigin c hc
      exact ⟨hlt, p, hplaces c p hp, hparent⟩
    · rw [hother c hne] at hb'
      have hcid : id < c := Nat.lt_of_le_of_ne (hid ▸ hc) (Ne.symm hne)
      obtain ⟨hle, hchild, hlisted⟩ := hsprouts.sprout c b' (hlast ▸ hcid) hb'
      refine ⟨hle, fun kid hkid => ?_, .inr ?_⟩
      · obtain ⟨hlt, p, hp, hparent⟩ := hchild kid hkid
        exact ⟨hlt, p, hplaces kid p hp, hparent⟩
      -- It is a child of the new boundary, or of another one beneath.
      · rcases hlisted with ⟨hparent, hmem⟩ | ⟨parent, b'', hparent, hlater, hb'', hmem⟩
        · exact ⟨id, _, hparent, hlt, hself, hmem⟩
        · have hlater : id < parent := hlast ▸ hlater
          refine ⟨parent, b'', hparent, Nat.lt_trans hlt hlater, ?_, hmem⟩
          rw [hother parent (Nat.ne_of_gt hlater)]
          exact hb''

/-- Closing a new boundary leaves it fresh, with the boundaries that were added for it beneath. -/
theorem adds_close {s₁ s₂ : Stage} {reads : List Dependency} {ids : List BoundaryId}
    {out : Rendered}
    (hextends : Extends s s₁) (hs₁ : s₁.Bounded) (hid : s.lastId + 1 = id) (hlast : s₁.lastId = id)
    (hplace : s₁.place? id = some ⟨role, node, ctx, parent?⟩) (hscope : ctx.Scope model)
    (hnode : node.Tidy) (hadds : Adds model s₁ s₂ (some id) ids)
    (horigin : ∀ c ∈ ids, id < c ∧ ∃ p, s₂.place? c = some p ∧ p.parent? = some id)
    (hshown : ShownAs s₁.live.models (s₂.cast model) (fun d => d ∈ reads) ctx role node out ids) :
    Adds model s ((s₂.settle id reads).close id ids out) parent? [id]
      ∧ ((s₂.settle id reads).close id ids out).place? id = some ⟨role, node, ctx, parent?⟩ := by
  have hplaces : ∀ c p, s₂.place? c = some p →
      ((s₂.settle id reads).close id ids out).place? c = some p :=
    fun c p hp => place?_close.trans hp
  obtain ⟨b, hb, hbplace⟩ := exists_boundary? hplace
  obtain ⟨hself, hother⟩ :=
    @boundary?_closed id s₁ s₂ b reads ids out hlast hadds.toExtends hb
  obtain ⟨rfl, rfl, rfl, rfl⟩ := Place.mk.inj hbplace
  have hsprouts : Sprouts s ((s₂.settle id reads).close id ids out) b.parent? [id] :=
    sprouts_close hextends hid hlast hb hadds.sprouts horigin
  refine ⟨⟨hsprouts.toExtends, fun c b' hc hb' => ?_⟩, ?_⟩
  · obtain ⟨hle, hchild, hlisted⟩ := hsprouts.sprout c b' hc hb'
    by_cases hne : c = id
    · subst hne
      obtain rfl := Option.some.inj (hself.symm.trans hb')
      refine ⟨hle, ⟨hscope, hnode, fun count => ?_, hchild⟩, ?_, hlisted⟩
      · exact (hshown.aligned count).imp fun c _ => hplaces c
      · unfold Fresh
        rw [show ((s₂.settle c reads).close c ids out).live.models = s₁.live.models
          from hadds.models_eq]
        exact hshown.imp (fun d hd => mem_dependencies_settle.2 hd)
          fun c _ _ _ _ => cast_carry (hplaces c)
    · rw [hother c hne] at hb'
      have hcid : id < c := Nat.lt_of_le_of_ne (hid ▸ hc) (Ne.symm hne)
      have hjoined := hadds.joined c b' (hlast ▸ hcid) hb'
      have hdependencies : ((s₂.settle id reads).close id ids out).dependencies c
          = s₂.dependencies c := dependencies_settle_of_ne hne
      exact ⟨hle, hjoined.standing.carry fun c _ => hplaces c,
        hjoined.fresh.carry rfl hdependencies fun c _ => hplaces c, hlisted⟩
  · exact hplaces id _ (hadds.place?_eq_some hs₁ hplace)

/-- A new boundary is fresh, and so are the boundaries beneath it. -/
theorem spawn_adds (hs : s.Bounded) (hscope : ctx.Scope model) (hnode : node.Tidy)
    (hbody : Renders model role node ctx body) (parent? : Option BoundaryId)
    (frame? : Option Frame) :
    ∃ id events stage, spawn role node ctx parent? body s frame? = ⟨id, ⟨[], events⟩, stage, frame?⟩
      ∧ id = s.lastId + 1 ∧ Adds model s stage parent? [id]
      ∧ stage.place? id = some ⟨role, node, ctx, parent?⟩ := by
  have hb : (planted s role node ctx parent?).boundary? (s.lastId + 1)
      = some ⟨role, node, ctx, parent?, [], .value .undefined, 0⟩ := boundary?_planted_self
  obtain ⟨hextends, hbounded⟩ := extends_opened hs role node ctx parent?
  have hready : (⟨s.lastId + 1, [], []⟩ : Frame).Ready
      ((planted s role node ctx parent?).opened (s.lastId + 1)) := ⟨hbounded, Nat.le_refl _⟩
  -- A new boundary has no former children to choose from.
  obtain ⟨ids, hdoes, hshown⟩ := hbody _ _ hready fun _ _ hpair => absurd hpair List.not_mem_nil
  have hplace : ((planted s role node ctx parent?).opened (s.lastId + 1)).place? (s.lastId + 1)
      = some ⟨role, node, ctx, parent?⟩ := place?_opened.trans (place?_of_boundary? hb)
  have horigin := fun c hc => (hdoes.origin c hc).resolve_left List.not_mem_nil
  obtain ⟨hadds, hplace'⟩ :=
    adds_close hextends hbounded rfl rfl hplace hscope hnode hdoes.adds horigin hshown
  have hspawn : spawn role node ctx parent? body s frame?
      = { render (s.lastId + 1) body (planted s role node ctx parent?) frame? with
          value := s.lastId + 1 } := rfl
  rw [hspawn, render_eq hb hdoes.frame?_eq, List.filter_nil, drop_nil]
  exact ⟨_, _, _, rfl, rfl, hadds, hplace'⟩

/-! ## Children -/

/-- A former child that shows what is asked for is kept; its node was the same all along. -/
theorem cast_of_shows (hfills : s.Fills model id (role, node)) (hscope : ctx.Scope model)
    (hshows : s.shows role node ctx id = true) : s.cast model id role node ctx := by
  obtain ⟨p, hp, hrole, hnode, hplace⟩ := hfills
  obtain ⟨b, hb, rfl⟩ := exists_boundary? hp
  unfold shows at hshows
  rw [hb] at hshows
  have hbeq : (Value.map b.context == Value.map ctx) = true := (Bool.and_eq_true _ _ ▸ hshows).2
  exact ⟨b.place, hp, hrole, hnode, hplace, hplace.near_of_beq hscope hbeq⟩

/-- The child that is asked for stands for the node in a scope that is near. -/
theorem child_yields {f : Frame} {more : List (Role × ViewNode)} (hready : f.Ready s)
    (hscope : ctx.Scope model) (hnode : node.Tidy)
    (haligned : s.Aligned model f.previous ((role, node) :: more))
    (hbody : Renders model role node ctx body) :
    Yields model s f (child role node ctx body) fun id ids s' _ =>
      ids = [id] ∧ s'.cast model id role node ctx := by
  -- The former child at the position is kept if it shows what is asked for.
  cases hhead : f.previous.head?.filter (s.shows role node ctx) with
  | some id =>
    obtain ⟨hid, hshows⟩ := Option.filter_eq_some_iff.1 hhead
    have hchild : child role node ctx body s (some f)
        = ⟨id, .empty, s, some (f.after [id])⟩ := by
      rw [child, hhead, Frame.after, ← List.drop_one]
      rfl
    refine ⟨[id], ?_, ?_⟩
    · rw [hchild]
      refine ⟨rfl, ?_, fun c hc => ?_⟩
      · exact ⟨.refl s, fun c b hlt hb => absurd (hready.bounded c b hb) (Nat.not_le_of_lt hlt)⟩
      · exact .inl (List.mem_singleton.1 hc ▸ List.mem_of_mem_head? hid)
    · rw [hchild]
      refine ⟨rfl, cast_of_shows ?_ hscope hshows⟩
      obtain ⟨rest, hprevious⟩ := List.head?_eq_some_iff.1 hid
      rw [hprevious] at haligned
      exact haligned.head
  | none =>
    obtain ⟨id, events, stage, hspawn, hid, hadds, hplace⟩ :=
      spawn_adds hready.bounded hscope hnode hbody (some f.owner)
        (some { f with previous := f.previous.tail })
    have hchild : child role node ctx body s (some f)
        = ⟨id, ⟨[], events⟩, stage, some (f.after [id])⟩ := by
      rw [child, hhead]
      dsimp only
      rw [hspawn, Frame.after, ← List.drop_one]
      rfl
    refine ⟨[id], ?_, ?_⟩
    · rw [hchild]
      refine ⟨rfl, hadds, fun c hc => .inr ?_⟩
      rw [List.mem_singleton.1 hc]
      exact ⟨Nat.lt_of_succ_le (Nat.le_of_eq hid.symm), _, hplace, rfl⟩
    · rw [hchild]
      exact ⟨rfl, _, hplace, rfl, rfl, hscope, hscope.plain⟩

end Rendering

end BoundView
