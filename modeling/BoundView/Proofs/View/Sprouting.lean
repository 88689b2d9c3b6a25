import BoundView.Proofs.View.Account
import BoundView.Proofs.View.Regrowth

/-!
# Bodies that grow

Whatever is rendered inside a boundary, or outside of any, grows: it adds boundaries that are linked
to each other and to their owner, each of which it renders once, in the order of their numbers.
`Recorded.Grows` says this of a rendering whatever stage it starts from.  A rule for each way to put
renderings together gives it for every node, every registry and every way to evaluate expressions.
-/

namespace BoundView

namespace Stage

variable {s s' s₁ s₂ : Stage} {id : BoundaryId}

/-- A boundary or another observer that is subscribed to something, or marked. -/
def Holds (s : Stage) (id : ObserverId) : Prop :=
  s.live.observers.Holds id

/-- The boundaries that were added have different children and were rendered once; nobody else is
subscribed or marked who was not before. -/
structure Tends (s s' : Stage) : Prop where
  nodup : ∀ id b, s.lastId < id → s'.boundary? id = some b → b.children.Nodup
  renders_eq : ∀ id b, s.lastId < id → s'.boundary? id = some b → b.renders = 1
  holds : ∀ id, s'.Holds id → s.Holds id ∨ s.lastId < id ∧ s'.isMounted id = true
  pending : s'.live.observers.pending.Sublist s.live.observers.pending

theorem isMounted_of_boundary? {b : Boundary} (h : s.boundary? id = some b) :
    s.isMounted id = true :=
  congrArg Option.isSome h

theorem exists_of_isMounted (h : s.isMounted id = true) : ∃ b, s.boundary? id = some b :=
  Option.isSome_iff_exists.1 h

theorem Tends.refl (hs : s.Bounded) : Tends s s where
  nodup id b hid hb := absurd (hs id b hb) (Nat.not_le_of_lt hid)
  renders_eq id b hid hb := absurd (hs id b hb) (Nat.not_le_of_lt hid)
  holds _ h := .inl h
  pending := .refl _

theorem Tends.trans (h : Tends s s₁) (h' : Tends s₁ s₂) (hlast : s.lastId ≤ s₁.lastId)
    (hextends : Extends s₁ s₂) (hs₁ : s₁.Bounded) : Tends s s₂ where
  nodup id b hid hb := by
    by_cases hid₁ : id ≤ s₁.lastId
    · exact h.nodup id b hid ((hextends.boundary?_eq id hid₁).symm.trans hb)
    · exact h'.nodup id b (Nat.lt_of_not_le hid₁) hb
  renders_eq id b hid hb := by
    by_cases hid₁ : id ≤ s₁.lastId
    · exact h.renders_eq id b hid ((hextends.boundary?_eq id hid₁).symm.trans hb)
    · exact h'.renders_eq id b (Nat.lt_of_not_le hid₁) hb
  holds id hid := by
    rcases h'.holds id hid with hid | ⟨hlt, hmounted⟩
    · refine (h.holds id hid).imp_right fun ⟨hlt, hmounted⟩ => ⟨hlt, ?_⟩
      obtain ⟨b, hb⟩ := exists_of_isMounted hmounted
      exact isMounted_of_boundary? ((hextends.boundary?_eq id (hs₁ id b hb)).trans hb)
    · exact .inr ⟨Nat.lt_of_le_of_lt hlast hlt, hmounted⟩
  pending := h'.pending.trans h.pending

end Stage

open Stage

/-! ## Parts of a rendering -/

namespace Recorded

variable {α β : Type} {s : Stage} {f? : Option Frame} {ids : List BoundaryId}

/-- The former children that are left to choose from. -/
def former (f? : Option Frame) : List BoundaryId :=
  (f?.map Frame.previous).getD []

/-- The stage of a frame has given the numbers in it. -/
structure Fits (s : Stage) (f? : Option Frame) : Prop where
  bounded : s.Bounded
  owner_le : ∀ owner ∈ f?.map Frame.owner, owner ≤ s.lastId
  former_le : ∀ c ∈ former f?, c ≤ s.lastId
  nodup : (former f?).Nodup

/-- To render the boundaries with the numbers between two. -/
def births (first last : Nat) : List Deed :=
  (List.range' (first + 1) (last - first)).map .rendered

theorem births_self (n : Nat) : births n n = [] := by
  rw [births, Nat.sub_self]
  rfl

theorem births_append {first middle last : Nat} (h : first ≤ middle) (h' : middle ≤ last) :
    births first middle ++ births middle last = births first last := by
  have hmiddle : middle + 1 = first + 1 + (middle - first) := by omega
  have hlast : last - first = middle - first + (last - middle) := by omega
  rw [births, births, births, ← List.map_append, hmiddle, hlast, List.range'_append_1]

theorem rendered_cons_births {first last : Nat} (h : first < last) :
    .rendered (first + 1) :: births (first + 1) last = births first last := by
  have hfirst : births first (first + 1) = [.rendered (first + 1)] := by
    rw [births, Nat.add_sub_cancel_left]
    rfl
  rw [← births_append (Nat.le_succ first) h, hfirst]
  rfl

theorem mem_births {first last id : Nat} :
    .rendered id ∈ births first last ↔ first < id ∧ id ≤ last := by
  rw [births, List.mem_map_of_injective fun _ _ h => Deed.rendered.inj h, List.mem_range'_1]
  omega

/-- What part of a rendering does on behalf of a frame, or outside of any, where `ids` are the
boundaries that it asks for. -/
structure Grown (s : Stage) (f? : Option Frame) (p : Recorded α) (ids : List BoundaryId) :
    Prop where
  frame?_eq : (p.run s f?).frame? = f?.map (·.after ids)
  sprouts : Sprouts s (p.run s f?).stage (f?.map Frame.owner) ids
  tends : Tends s (p.run s f?).stage
  origin : ∀ id ∈ ids, id ∈ (former f?).take ids.length
    ∨ s.lastId < id ∧ ∃ place, (p.run s f?).stage.place? id = some place
      ∧ place.parent? = f?.map Frame.owner
  nodup : ids.Nodup
  deeds_eq : p.deeds s f? = births s.lastId (p.run s f?).stage.lastId

/-- A rendering that grows wherever it is done. -/
def Grows (p : Recorded α) : Prop :=
  ∀ s f?, Fits s f? → ∃ ids, Grown s f? p ids

theorem former_after (f? : Option Frame) (ids : List BoundaryId) :
    former (f?.map (·.after ids)) = (former f?).drop ids.length := by
  cases f? with
  | none => exact List.drop_nil.symm
  | some f => rfl

theorem Fits.after {p : Recorded α} (h : Fits s f?) (hgrown : Grown s f? p ids) :
    Fits (p.run s f?).stage (f?.map (·.after ids)) where
  bounded := hgrown.sprouts.bounded
  owner_le owner howner := by
    have howner : owner ∈ f?.map Frame.owner := by
      cases f? with
      | none => exact howner
      | some f => exact howner
    exact Nat.le_trans (h.owner_le owner howner) hgrown.sprouts.lastId_le
  former_le c hc := by
    rw [former_after] at hc
    exact Nat.le_trans (h.former_le c (List.mem_of_mem_drop hc)) hgrown.sprouts.lastId_le
  nodup := by
    rw [former_after]
    exact h.nodup.sublist (List.drop_sublist _ _)

/-! ## Rules -/

theorem Grown.quiet {m : Rendering α} (hfits : Fits s f?) (hstage : (m s f?).stage = s)
    (hframe : (m s f?).frame? = f?) : Grown s f? (quiet m) [] := by
  refine ⟨?_, ?_, ?_, fun _ hid => absurd hid List.not_mem_nil, List.nodup_nil, ?_⟩
  · show (m s f?).frame? = _
    rw [hframe]
    cases f? with
    | none => rfl
    | some f => exact congrArg some f.after_nil.symm
  · show Sprouts s (m s f?).stage _ _
    rw [hstage]
    exact .refl hfits.bounded
  · show Tends s (m s f?).stage
    rw [hstage]
    exact .refl hfits.bounded
  · show [] = births s.lastId (m s f?).stage.lastId
    rw [hstage, births_self]

theorem Grows.quiet {m : Rendering α} (hstage : ∀ s f?, (m s f?).stage = s)
    (hframe : ∀ s f?, (m s f?).frame? = f?) : (quiet m).Grows :=
  fun s f? hfits => ⟨[], .quiet hfits (hstage s f?) (hframe s f?)⟩

theorem Grows.pure (a : α) : (pure a : Recorded α).Grows :=
  .quiet (fun _ _ => rfl) fun _ _ => rfl

theorem Grows.ofReading (m : Reading α) : (ofReading m).Grows :=
  .quiet (fun _ _ => rfl) fun _ _ => rfl

/-- What two parts ask for, one after the other, is different. -/
theorem Fits.nodup_append {p : Recorded α} {q : Recorded β} {others : List BoundaryId}
    (h : Fits s f?) (hgrown : Grown s f? p ids)
    (hgrown' : Grown (p.run s f?).stage (f?.map (·.after ids)) q others) :
    (ids ++ others).Nodup := by
  refine List.nodup_append.2 ⟨hgrown.nodup, hgrown'.nodup, fun id hid other hother heq => ?_⟩
  subst heq
  have hle : id ≤ (p.run s f?).stage.lastId := by
    rcases hgrown.origin id hid with hold | ⟨hlt, place, hplace, -⟩
    · exact Nat.le_trans (h.former_le id (List.mem_of_mem_take hold)) hgrown.sprouts.lastId_le
    · obtain ⟨b, hb, -⟩ := exists_boundary? hplace
      exact hgrown.sprouts.bounded id b hb
  -- The second part asks for a former child that the first one has left, or for a new one.
  rcases hgrown'.origin id hother with hleft | ⟨hlt, -⟩
  · rw [former_after] at hleft
    have hleft := List.mem_of_mem_take hleft
    rcases hgrown.origin id hid with hold | ⟨hlt, -⟩
    · exact List.disjoint_take_drop h.nodup (Nat.le_refl _) hold hleft
    · exact Nat.not_le_of_lt hlt (h.former_le id (List.mem_of_mem_drop hleft))
  · exact Nat.not_le_of_lt hlt hle

theorem Grown.bind {p : Recorded α} {k : α → Recorded β} {others : List BoundaryId}
    (hgrown : Grown s f? p ids) (hfits : Fits s f?)
    (hgrown' : Grown (p.run s f?).stage (f?.map (·.after ids)) (k (p.run s f?).value) others) :
    Grown s f? (p >>= k) (ids ++ others) := by
  obtain ⟨hrun, hdeeds⟩ := bind_of_eq (k := k) rfl rfl hgrown.frame?_eq
  have howner : (f?.map (·.after ids)).map Frame.owner = f?.map Frame.owner := by
    cases f? <;> rfl
  have hsprouts := hgrown'.sprouts
  rw [howner] at hsprouts
  refine ⟨?_, ?_, ?_, fun id hid => ?_, hfits.nodup_append hgrown hgrown', ?_⟩
  · rw [hrun]
    refine hgrown'.frame?_eq.trans ?_
    cases f? with
    | none => rfl
    | some f => exact congrArg some (f.after_after ids others)
  · rw [hrun]
    exact hgrown.sprouts.trans hsprouts
  · rw [hrun]
    exact hgrown.tends.trans hgrown'.tends hgrown.sprouts.lastId_le hsprouts.toExtends
      hgrown.sprouts.bounded
  · rw [hrun, List.length_append, List.take_add]
    rcases List.mem_append.1 hid with hid | hid
    · refine (hgrown.origin id hid).imp (List.mem_append_left _) ?_
      rintro ⟨hlt, place, hplace, hparent⟩
      exact ⟨hlt, place, hsprouts.place?_eq_some hgrown.sprouts.bounded hplace, hparent⟩
    · rcases hgrown'.origin id hid with hold | ⟨hlt, place, hplace, hparent⟩
      · rw [former_after] at hold
        exact .inl (List.mem_append_right _ hold)
      · exact .inr ⟨Nat.lt_of_le_of_lt hgrown.sprouts.lastId_le hlt, place, hplace,
          hparent.trans howner⟩
  · rw [hrun, hdeeds, hgrown.deeds_eq, hgrown'.deeds_eq]
    exact births_append hgrown.sprouts.lastId_le hsprouts.lastId_le

theorem Grows.bind {p : Recorded α} {k : α → Recorded β} (h : p.Grows) (hk : ∀ a, (k a).Grows) :
    (p >>= k).Grows := by
  intro s f? hfits
  obtain ⟨ids, hgrown⟩ := h s f? hfits
  -- The second part starts from the stage and the frame that the first one leaves.
  obtain ⟨others, hgrown'⟩ := hk (p.run s f?).value _ _ (hfits.after hgrown)
  exact ⟨ids ++ others, hgrown.bind hfits hgrown'⟩

/-! ## Boundaries that are made -/

theorem lost_eq_nil {before after : Stage}
    (h : ∀ id b, before.boundary? id = some b → after.isMounted id = true) :
    lost before after = [] := by
  refine List.filter_eq_nil_iff.2 fun id hid => ?_
  obtain ⟨b, hb⟩ := exists_of_isMounted (IdMap.contains_iff_mem_keys.2 hid)
  rw [h id b hb]
  exact Bool.false_ne_true

variable {role : Role} {node : ViewNode} {ctx : Context} {parent? : Option BoundaryId}
  {frame? : Option Frame} {body : Recorded Rendered}

/-- Closing a new boundary leaves it rendered once, with whatever its body asked for. -/
theorem tends_close {id : BoundaryId} {b : Boundary} {s₁ s₂ : Stage} {reads : List Dependency}
    {out : Rendered} (hb : s₁.boundary? id = some b) (hid : s.lastId + 1 = id)
    (hlast : s₁.lastId = id) (hobservers : ∀ x, s₁.Holds x → s.Holds x)
    (hpending : s₁.live.observers.pending.Sublist s.live.observers.pending)
    (hrenders : b.renders = 0) (hextends : Extends s₁ s₂)
    (htends : Tends s₁ s₂) (hids : ids.Nodup) :
    Tends s ((s₂.settle id reads).close id ids out) := by
  obtain ⟨hself, hother⟩ := @Rendering.boundary?_closed id s₁ s₂ b reads ids out hlast hextends hb
  have hlater : ∀ c, s.lastId < c → c ≠ id → s₁.lastId < c := by
    intro c hc hne
    rw [hlast]
    exact Nat.lt_of_le_of_ne (hid ▸ hc) (Ne.symm hne)
  refine ⟨fun c b' hc hb' => ?_, fun c b' hc hb' => ?_, fun x hx => ?_,
    (List.filter_sublist.trans htends.pending).trans hpending⟩
  · by_cases hne : c = id
    · subst hne
      obtain rfl := Option.some.inj (hself.symm.trans hb')
      exact hids
    · exact htends.nodup c b' (hlater c hc hne) ((hother c hne).symm.trans hb')
  · by_cases hne : c = id
    · subst hne
      obtain rfl := Option.some.inj (hself.symm.trans hb')
      exact congrArg Nat.succ hrenders
    · exact htends.renders_eq c b' (hlater c hc hne) ((hother c hne).symm.trans hb')
  · have hx : (s₂.live.observers.settle id reads).Holds x := hx
    have hlt : s.lastId < id := Nat.lt_of_succ_le (Nat.le_of_eq hid)
    by_cases hne : x = id
    · rw [hne]
      exact .inr ⟨hlt, isMounted_of_boundary? hself⟩
    · refine (htends.holds x (hx.of_settle.resolve_left hne)).imp (hobservers x) ?_
      rintro ⟨hlt', hmounted⟩
      obtain ⟨b', hb'⟩ := exists_of_isMounted hmounted
      exact ⟨Nat.lt_trans hlt (hlast ▸ hlt'), isMounted_of_boundary? ((hother x hne).trans hb')⟩

/-- The frame of a boundary that is made fits the stage that it is planted in. -/
theorem fits_planted (hs : s.Bounded) :
    Fits ((Rendering.planted s role node ctx parent?).opened (s.lastId + 1))
      (some ⟨s.lastId + 1, [], []⟩) := by
  obtain ⟨-, hbounded⟩ := Rendering.extends_opened hs role node ctx parent?
  refine ⟨hbounded, fun owner howner => ?_, fun _ hc => absurd hc List.not_mem_nil, List.nodup_nil⟩
  exact Nat.le_of_eq (Option.some.inj howner).symm

theorem boundary?_opened_planted :
    ((Rendering.planted s role node ctx parent?).opened (s.lastId + 1)).boundary? (s.lastId + 1)
      = some ⟨role, node, ctx, parent?, [], .value .undefined, 0⟩ := by
  rw [opened, boundary?_modifyBoundary_self, Rendering.boundary?_planted_self]
  rfl

/-- A boundary that is made is closed with what its body asked for, and subscribed to what its body
read. -/
theorem run_spawn {r : Rendering.Result Rendered}
    (hr : body.run ((Rendering.planted s role node ctx parent?).opened (s.lastId + 1))
      (some ⟨s.lastId + 1, [], []⟩) = r)
    (hgrown : Grown ((Rendering.planted s role node ctx parent?).opened (s.lastId + 1))
      (some ⟨s.lastId + 1, [], []⟩) body ids) (frame? : Option Frame) :
    (spawn role node ctx parent? body).run s frame?
      = ⟨s.lastId + 1, ⟨[], r.trace.events⟩, (r.stage.settle (s.lastId + 1) r.trace.reads).close
          (s.lastId + 1) ids r.value, frame?⟩ := by
  subst hr
  have hspawn : (spawn role node ctx parent? body).run s frame?
      = { Rendering.render (s.lastId + 1) body.run
            (Rendering.planted s role node ctx parent?) frame? with value := s.lastId + 1 } := rfl
  rw [hspawn, Rendering.render_eq Rendering.boundary?_planted_self hgrown.frame?_eq,
    List.filter_nil, drop_nil]
  rfl

/-- A boundary that is made is rendered first, and whatever it asks for behind it. -/
theorem Grows.spawn (hbody : body.Grows) (hs : s.Bounded) (role : Role) (node : ViewNode)
    (ctx : Context) (parent? : Option BoundaryId) (frame? : Option Frame) :
    ∃ events stage, (spawn role node ctx parent? body).run s frame?
        = ⟨s.lastId + 1, ⟨[], events⟩, stage, frame?⟩
      ∧ Sprouts s stage parent? [s.lastId + 1] ∧ Tends s stage
      ∧ stage.place? (s.lastId + 1) = some ⟨role, node, ctx, parent?⟩
      ∧ (spawn role node ctx parent? body).deeds s frame? = births s.lastId stage.lastId := by
  have hb : (Rendering.planted s role node ctx parent?).boundary? (s.lastId + 1)
      = some ⟨role, node, ctx, parent?, [], .value .undefined, 0⟩ :=
    Rendering.boundary?_planted_self
  obtain ⟨hextends, hbounded⟩ := Rendering.extends_opened hs role node ctx parent?
  -- A new boundary has no former children to choose from.
  have hfits : Fits ((Rendering.planted s role node ctx parent?).opened (s.lastId + 1))
      (some ⟨s.lastId + 1, [], []⟩) := fits_planted hs
  obtain ⟨ids, hgrown⟩ := hbody _ _ hfits
  have hopened : ((Rendering.planted s role node ctx parent?).opened (s.lastId + 1)).boundary?
      (s.lastId + 1) = some ⟨role, node, ctx, parent?, [], .value .undefined, 0⟩ :=
    boundary?_opened_planted
  have horigin := fun c hc => (hgrown.origin c hc).resolve_left fun hold =>
    absurd (List.mem_of_mem_take hold) List.not_mem_nil
  have hrun := run_spawn rfl hgrown frame?
  refine ⟨_, _, hrun, Rendering.sprouts_close hextends rfl rfl hopened hgrown.sprouts horigin,
    tends_close hopened rfl rfl (fun _ h => h) (.refl _) rfl hgrown.sprouts.toExtends
      hgrown.tends hgrown.nodup, ?_, ?_⟩
  · rw [place?_close]
    exact hgrown.sprouts.place?_eq_some hbounded (place?_of_boundary? hopened)
  · have hdeeds : (Recorded.spawn role node ctx parent? body).deeds s frame?
        = .rendered (s.lastId + 1) :: (body.deeds
            ((Rendering.planted s role node ctx parent?).opened (s.lastId + 1))
            (some ⟨s.lastId + 1, [], []⟩)
          ++ (lost (body.run ((Rendering.planted s role node ctx parent?).opened (s.lastId + 1))
              (some ⟨s.lastId + 1, [], []⟩)).stage
            ((Recorded.spawn role node ctx parent? body).run s frame?).stage).map .dropped) :=
      deeds_render hb
    obtain ⟨hself, hother⟩ := @Rendering.boundary?_closed (s.lastId + 1) _ _ _ _ ids _ rfl
      hgrown.sprouts.toExtends hopened
    rw [hdeeds, hrun, lost_eq_nil, List.map_nil, List.append_nil, hgrown.deeds_eq]
    · exact rendered_cons_births (Nat.lt_of_succ_le hgrown.sprouts.lastId_le)
    · intro c b hc
      by_cases hne : c = s.lastId + 1
      · rw [hne]
        exact isMounted_of_boundary? hself
      · exact isMounted_of_boundary? ((hother c hne).trans hc)

/-! ## Boundaries that are asked for -/

/-- The former child at the position is kept if it shows what is asked for, and otherwise a boundary
is made. -/
theorem Grows.child_cases (hbody : body.Grows) (hs : s.Bounded) (role : Role) (node : ViewNode)
    (ctx : Context) (f? : Option Frame) :
    (∃ id, (former f?).head?.filter (s.shows role node ctx) = some id
      ∧ (Recorded.child role node ctx body).run s f? = ⟨id, .empty, s, f?.map (·.after [id])⟩
      ∧ (Recorded.child role node ctx body).deeds s f? = [])
    ∨ (former f?).head?.filter (s.shows role node ctx) = none ∧ ∃ events stage inner?,
      (Recorded.spawn role node ctx (f?.map Frame.owner) body).run s inner?
        = ⟨s.lastId + 1, ⟨[], events⟩, stage, inner?⟩
      ∧ (Recorded.child role node ctx body).run s f?
        = ⟨s.lastId + 1, ⟨[], events⟩, stage, f?.map (·.after [s.lastId + 1])⟩
      ∧ (Recorded.child role node ctx body).deeds s f?
        = (Recorded.spawn role node ctx (f?.map Frame.owner) body).deeds s inner? := by
  cases f? with
  | none =>
    obtain ⟨events, stage, hrun, -⟩ := hbody.spawn hs role node ctx none none
    exact .inr ⟨rfl, events, stage, none, hrun, hrun, rfl⟩
  | some f =>
    cases hhead : f.previous.head?.filter (s.shows role node ctx) with
    | some id =>
      refine .inl ⟨id, hhead, ?_, deeds_child_of_kept hhead⟩
      show Rendering.child role node ctx body.run s (some f) = _
      rw [Rendering.child, hhead, ← List.drop_one]
      rfl
    | none =>
      obtain ⟨events, stage, hrun, -⟩ := hbody.spawn hs role node ctx (some f.owner)
        (some { f with previous := f.previous.tail })
      refine .inr ⟨hhead, events, stage, _, hrun, ?_, deeds_child_of_spawned hhead⟩
      show Rendering.child role node ctx body.run s (some f) = _
      have hrun : Rendering.spawn role node ctx (some f.owner) body.run s
          (some { f with previous := f.previous.tail }) = _ := hrun
      rw [Rendering.child, hhead]
      dsimp only
      rw [hrun, ← List.drop_one]
      rfl

/-- What a body asks for: a boundary of a role that shows a node in a scope. -/
structure Ask where
  role : Role
  node : ViewNode
  context : Context

/-- A boundary answers what is asked for: it is the former child at the position if that shows this,
and otherwise a new one. -/
def Answers (s s' : Stage) (owner? former? : Option BoundaryId) (ask : Ask) (id : BoundaryId) :
    Prop :=
  former?.filter (s.shows ask.role ask.node ask.context) = some id
    ∨ former?.filter (s.shows ask.role ask.node ask.context) = none ∧ s.lastId < id
      ∧ s'.place? id = some ⟨ask.role, ask.node, ask.context, owner?⟩

/-- What is asked for is a former child, or a new boundary. -/
theorem Grows.child_answers (hbody : body.Grows) (hfits : Fits s f?) (role : Role) (node : ViewNode)
    (ctx : Context) :
    ∃ id, ((Recorded.child role node ctx body).run s f?).value = id
      ∧ Grown s f? (Recorded.child role node ctx body) [id]
      ∧ Answers s ((Recorded.child role node ctx body).run s f?).stage (f?.map Frame.owner)
        (former f?).head? ⟨role, node, ctx⟩ id := by
  rcases hbody.child_cases hfits.bounded role node ctx f? with ⟨id, hhead, hrun, hdeeds⟩
    | ⟨hhead, events, stage, inner?, hspawn, hrun, hdeeds⟩
  · rw [hrun]
    refine ⟨id, rfl, ⟨?_, ?_, ?_, fun c hc => .inl ?_, List.nodup_singleton _, ?_⟩, .inl hhead⟩
    · rw [hrun]
    · rw [hrun]
      exact ⟨.refl s, fun c b hlt hb => absurd (hfits.bounded c b hb) (Nat.not_le_of_lt hlt)⟩
    · rw [hrun]
      exact .refl hfits.bounded
    · obtain rfl := List.mem_singleton.1 hc
      obtain ⟨rest, hprevious⟩ := List.head?_eq_some_iff.1 (Option.filter_eq_some_iff.1 hhead).1
      rw [hprevious]
      exact List.mem_cons_self
    · rw [hdeeds, hrun, births_self]
  · obtain ⟨_, _, hspawn', hsprouts, htends, hplace, hbirths⟩ :=
      hbody.spawn hfits.bounded role node ctx (f?.map Frame.owner) inner?
    obtain ⟨-, -, rfl, -⟩ := Rendering.Result.mk.inj (hspawn'.symm.trans hspawn)
    rw [hrun]
    refine ⟨_, rfl, ⟨?_, ?_, ?_, fun c hc => .inr ?_, List.nodup_singleton _, ?_⟩,
      .inr ⟨hhead, Nat.lt_succ_self _, hplace⟩⟩
    · rw [hrun]
    · rw [hrun]
      exact hsprouts
    · rw [hrun]
      exact htends
    · obtain rfl := List.mem_singleton.1 hc
      rw [hrun]
      exact ⟨Nat.lt_succ_self _, _, hplace, rfl⟩
    · rw [hrun, hdeeds]
      exact hbirths

theorem Grows.child (hbody : body.Grows) (role : Role) (node : ViewNode) (ctx : Context) :
    (child role node ctx body).Grows := by
  intro s f? hfits
  obtain ⟨id, -, hgrown, -⟩ := hbody.child_answers hfits role node ctx
  exact ⟨[id], hgrown⟩

/-! ## The interpreter -/

variable (v : Interpreter)

theorem renderElement_grows (tag : String) {props : Recorded (Members Rendered)}
    (h : props.Grows) : (renderElement v tag props).Grows := by
  refine h.bind fun outs => ?_
  cases Members.find? tag v.registry with
  | none => exact .pure _
  | some component => exact .pure _

theorem renderItems_grows (template : ViewNode) {render : Context → Recorded Rendered}
    (h : ∀ scope, (render scope).Grows) (ctx : Context) (index : Nat) (items : List Value) :
    (renderItems template render ctx index items).Grows := by
  induction items generalizing index with
  | nil => exact .pure _
  | cons item rest ih =>
    refine ((h _).child .item template _).bind fun id => ?_
    exact (ih (index + 1)).bind fun _ => .pure _

theorem renderCollection_grows {source : Recorded Rendered} (hsource : source.Grows)
    (template : ViewNode) {render : Context → Recorded Rendered}
    (h : ∀ scope, (render scope).Grows) (ctx : Context) :
    (renderCollection source template render ctx).Grows := by
  refine hsource.bind fun out => (Grows.ofReading _).bind fun items => ?_
  exact (renderItems_grows template h ctx 0 items).bind fun _ => .pure _

mutual

theorem resolve_grows : ∀ (node : ViewNode) (ctx : Context), (resolve v ctx node).Grows
  | .literal value, ctx => by
    rw [resolve]
    exact .pure _
  | .read expression, ctx => by
    rw [resolve]
    exact (Grows.ofReading _).bind fun _ => .pure _
  | .write expression, ctx => by
    rw [resolve]
    exact .pure _
  | .sequence items, ctx => by
    rw [resolve]
    exact (resolveItems_grows items ctx).bind fun _ => .pure _
  | .collection source template, ctx => by
    rw [resolve]
    have hbody := renderCollection_grows (resolve_grows source ctx) template
      (fun scope => resolve_grows template scope) ctx
    exact (hbody.child _ _ _).bind fun _ => .pure _
  | .element tag props, ctx => by
    rw [resolve]
    have hbody := renderElement_grows v tag (resolveProps_grows props ctx)
    exact (hbody.child _ _ _).bind fun _ => .pure _
  | .raw document, ctx => by
    rw [resolve]
    exact .pure _

theorem resolveItems_grows : ∀ (items : List ViewNode) (ctx : Context),
    (resolveItems v ctx items).Grows
  | [], ctx => by
    rw [resolveItems]
    exact .pure _
  | item :: rest, ctx => by
    rw [resolveItems]
    refine (resolve_grows item ctx).bind fun first => ?_
    exact (resolveItems_grows rest ctx).bind fun _ => .pure _

theorem resolveProps_grows : ∀ (props : List (String × ViewNode)) (ctx : Context),
    (resolveProps v ctx props).Grows
  | [], ctx => by
    rw [resolveProps]
    exact .pure _
  | (name, prop) :: rest, ctx => by
    rw [resolveProps]
    refine (resolve_grows prop ctx).bind fun first => (Grows.ofReading _).bind fun _ => ?_
    exact (resolveProps_grows rest ctx).bind fun _ => .pure _

end

theorem evaluate_grows (role : Role) (node : ViewNode) (ctx : Context) :
    (evaluate v role node ctx).Grows := by
  unfold evaluate
  split
  · exact renderElement_grows v _ (resolveProps_grows v _ ctx)
  · exact renderCollection_grows (resolve_grows v _ ctx) _
      (fun scope => resolve_grows v _ scope) ctx
  · exact resolve_grows v node ctx

end Recorded

end BoundView
