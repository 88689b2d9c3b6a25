import BoundView.Proofs.View.Rerendering

/-!
# Views that are brought up to date

An accepted patch makes nothing stale but what it marks, and a flush renders again whatever is
marked.  Main statement: after a patch and a flush the stage is sound without stale boundaries, as
it was when its view was mounted.
-/

namespace BoundView

open ViewNode (ShownAs)

namespace Stage

variable {model : ModelId} {root : BoundaryId} {node : ViewNode} {stale others : List BoundaryId}
  {s : Stage}

/-- The same boundaries over other models, or with other marks. -/
theorem Sound.over (h : Sound model s root node stale) {live : Live}
    (hlast : live.observers.lastId = s.lastId)
    (hfresh : ∀ id b, s.boundary? id = some b → id ∉ others → b.context.Settled live.models →
      Fresh model { s with live } id b) : Sound model { s with live } root node others where
  place_root := h.place_root
  root_le := h.root_le
  le_lastId id b hb := Nat.le_trans (h.le_lastId id b hb) (Nat.le_of_eq hlast.symm)
  standing id b hb := (h.standing id b hb).carry fun _ _ _ hp => hp
  listed := h.listed
  context_root := h.context_root
  fresh := hfresh

theorem Sound.takePending (h : Sound model s root node stale) :
    Sound model { s with live := { s.live with observers := s.live.observers.takePending.2 } } root
      node stale :=
  h.over rfl fun id b hb hstale hsettled =>
    (h.fresh id b hb hstale hsettled).carry rfl rfl fun _ _ _ hp => hp

/-- After an accepted patch nothing is stale but what is marked. -/
theorem Sound.apply (h : Sound model s root node []) (hmodels : s.live.models.Definite)
    (hroot : (ModelRef.root model).Composite s.live.models) {live : Live} {r : ModelRef}
    {patch : Patch} {c : Change} (happly : s.live.apply r patch = .ok (c, live)) :
    Sound model { s with live } root node live.observers.pending := by
  obtain ⟨happly, hobservers⟩ := Live.apply_eq_ok happly
  refine h.over (by rw [hobservers]; rfl) fun id b hb hmarked hsettled => ?_
  have hbefore := h.settled hmodels hroot hb
  -- A boundary that depends on what is affected is marked, and this one is not.
  have hunaffected : ∀ d, d ∈ s.dependencies id → c.affects d = false := by
    intro d hd
    cases haffects : c.affects d with
    | false => rfl
    | true =>
      rw [hobservers] at hmarked
      exact absurd (Observers.mem_pending_notify hd haffects) hmarked
  -- Its scope holds on to what is composite before the patch and after it.
  have hboth : b.context.Near (fun q => q.Composite s.live.models ∧ q.Composite live.models)
      b.context := Context.Near.trans hbefore hsettled
  have hstanding := h.standing id b hb
  have hkeep := (h.fresh id b hb List.not_mem_nil hbefore).keep (hmodels.twins happly) hboth
    hstanding.scope hunaffected cast_lenient hstanding.tidy
  refine hkeep.imp (fun d hd => ?_) fun _ _ _ _ _ hcast => hcast
  show d ∈ live.observers.dependencies id
  rw [hobservers]
  exact hd

end Stage

namespace Interpreter

open Stage

variable {model : ModelId} {root id : BoundaryId} {node : ViewNode}
  {stale others : List BoundaryId} {s : Stage} {b : Boundary}

theorem rerender_sound (h : Sound model s root node stale) (hb : s.boundary? id = some b)
    (hothers : ∀ c ∈ stale, c ≠ id → c ∈ others) :
    ∃ events s', standard.rerender id s none = ⟨(), ⟨[], events⟩, s', none⟩
      ∧ s'.live.models = s.live.models ∧ Sound model s' root node others := by
  have hrerender : standard.rerender id s none
      = Rendering.render id (standard.evaluate b.role b.node b.context) s none := by
    unfold rerender
    rw [hb]
  have hstanding := h.standing id b hb
  have hready : (⟨id, b.children, []⟩ : Frame).Ready (s.opened id) :=
    ⟨bounded_opened h.le_lastId, h.le_lastId id b hb⟩
  -- The children it has are those that its node asks for, so they fit at their positions.
  obtain ⟨ids, hdoes, hshown⟩ := evaluate_renders hstanding.scope hstanding.tidy _ _ hready
    fun count => (hstanding.aligned count).imp fun _ _ _ hp => place?_opened.trans hp
  have hredone : Redone model s _ id b ids := ⟨h.le_lastId, hb, hdoes.adds, hdoes.origin⟩
  have hclosed := (hredone.regrown h).closed
    (standard.evaluate b.role b.node b.context (s.opened id)
      (some ⟨id, b.children, []⟩)).trace.reads
    (standard.evaluate b.role b.node b.context (s.opened id) (some ⟨id, b.children, []⟩)).value
  rw [hrerender, Rendering.render_eq hb hdoes.frame?_eq]
  exact ⟨_, _, rfl, hclosed.models_eq.trans hdoes.adds.models_eq,
    hredone.sound h hshown hothers hclosed⟩

theorem rerenderAll_cons_of_mounted {rest : List BoundaryId} (hid : s.isMounted id = true) :
    standard.rerenderAll (id :: rest) s none
      = let first := standard.rerender id s none
        let second := standard.rerenderAll rest first.stage first.frame?
        ⟨second.value + 1, first.trace.append (second.trace.append .empty), second.stage,
          second.frame?⟩ :=
  if_pos hid

theorem rerenderAll_cons_of_not_mounted {rest : List BoundaryId} (hid : ¬s.isMounted id = true) :
    standard.rerenderAll (id :: rest) s none = standard.rerenderAll rest s none :=
  if_neg hid

theorem rerenderAll_sound {ids : List BoundaryId} (h : Sound model s root node ids) :
    ∃ count events s', standard.rerenderAll ids s none = ⟨count, ⟨[], events⟩, s', none⟩
      ∧ s'.live.models = s.live.models ∧ Sound model s' root node [] := by
  induction ids generalizing s with
  | nil => exact ⟨0, [], s, rfl, rfl, h⟩
  | cons id rest ih =>
    cases hb : s.boundary? id with
    | none =>
      -- It was dropped by a parent that was rendered before, so there is nothing to be stale.
      have hid : ¬s.isMounted id = true := by
        rw [show s.isMounted id = false from congrArg Option.isSome hb]
        exact Bool.false_ne_true
      rw [rerenderAll_cons_of_not_mounted hid]
      refine ih ⟨h.place_root, h.root_le, h.le_lastId, h.standing, h.listed, h.context_root, ?_⟩
      intro c b' hb' hc hsettled
      refine h.fresh c b' hb' (fun hmem => ?_) hsettled
      rcases List.mem_cons.1 hmem with rfl | hmem
      · exact nomatch hb.symm.trans hb'
      · exact hc hmem
    | some b =>
      obtain ⟨events, s₁, hrerender, hmodels₁, hsound₁⟩ :=
        rerender_sound h hb fun c hc hne => (List.mem_cons.1 hc).resolve_left hne
      obtain ⟨count, events', s₂, hrest, hmodels₂, hsound₂⟩ := ih hsound₁
      refine ⟨count + 1, events ++ (events' ++ []), s₂, ?_, hmodels₂.trans hmodels₁, hsound₂⟩
      rw [rerenderAll_cons_of_mounted (congrArg Option.isSome hb), hrerender]
      dsimp only
      rw [hrest]
      rfl

/-- A flush renders again whatever is marked. -/
theorem flush_sound (h : Sound model s root node s.live.observers.pending) :
    ∃ count events s', standard.flush s none = ⟨count, ⟨[], events⟩, s', none⟩
      ∧ s'.live.models = s.live.models ∧ Sound model s' root node [] :=
  rerenderAll_sound h.takePending

/-- What is mounted is fresh. -/
theorem mount_sound (live : Live) (hnode : node.Tidy) :
    ∃ root events s, standard.mount node (.root model) ⟨live, []⟩ none
      = ⟨root, ⟨[], events⟩, s, none⟩
      ∧ s.live.models = live.models ∧ Sound model s root node [] := by
  have hempty : (⟨live, []⟩ : Stage).Bounded := fun id b hb => nomatch hb
  have hbody : Rendering.Renders model .view node (.root model)
      (standard.evaluate .view node (.root model)) := evaluate_renders .root hnode
  obtain ⟨root, events, s, hspawn, hroot, hadds, hplace⟩ :=
    Rendering.spawn_adds hempty .root hnode hbody none none
  -- There was no boundary before, so each of them was added.
  have hjoined : ∀ id b, s.boundary? id = some b → live.observers.lastId < id
      ∧ Joined model ⟨live, []⟩ s none [root] id b := by
    intro id b hb
    by_cases hid : id ≤ live.observers.lastId
    · rw [hadds.boundary?_eq id hid] at hb
      exact nomatch hb
    · exact ⟨Nat.lt_of_not_le hid, hadds.joined id b (Nat.lt_of_not_le hid) hb⟩
  refine ⟨root, events, s, hspawn, hadds.models_eq, hplace, fun id b hb => ?_,
    fun id b hb => (hjoined id b hb).2.le_lastId, fun id b hb => (hjoined id b hb).2.standing,
    fun id p parent hp hparent => ?_, fun id p hp hnone => ?_,
    fun id b hb _ _ => (hjoined id b hb).2.fresh⟩
  · rw [hroot]
    exact (hjoined id b hb).1
  · obtain ⟨b, hb, rfl⟩ := exists_boundary? hp
    have hparent : b.parent? = some parent := hparent
    rcases (hjoined id b hb).2.listed with ⟨hnone, -⟩ | ⟨parent', b', hparent', -, hb', hmem⟩
    · exact nomatch hparent.symm.trans hnone
    · obtain rfl := Option.some.inj (hparent.symm.trans hparent')
      exact ⟨b', hb', hmem⟩
  · obtain ⟨b, hb, rfl⟩ := exists_boundary? hp
    have hnone : b.parent? = none := hnone
    rcases (hjoined id b hb).2.listed with ⟨-, hmem⟩ | ⟨parent, -, hparent, -⟩
    · obtain rfl := List.mem_singleton.1 hmem
      rw [← Option.some.inj (hplace.symm.trans hp)]
    · exact nomatch hnone.symm.trans hparent

end Interpreter

end BoundView
