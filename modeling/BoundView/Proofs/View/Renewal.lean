import BoundView.Proofs.View.Upkeep

/-!
# One boundary rendered again

Rendering a boundary again keeps a stage orderly.  The new boundaries are beneath the one that is
rendered again, each of them is rendered once, and behind them whoever is gone is dropped.
-/

namespace BoundView

namespace Stage

variable {s s₁ s₂ : Stage} {id : BoundaryId} {b : Boundary} {ids : List BoundaryId}

/-- What becomes of a stage when one of its boundaries is rendered again. -/
structure Renewed (s s' : Stage) (id : BoundaryId) : Prop extends Keeps s s' where
  mounted : s'.isMounted id = true
  parent : ∀ c p parent, s.lastId < c → s'.place? c = some p → p.parent? = some parent →
    parent = id ∨ s.lastId < parent
  renders_eq : ∀ c b, s'.boundary? c = some b →
    b.renders = s.renders c + if c = id ∨ s.lastId < c then 1 else 0
  pending : s'.live.observers.pending.Sublist s.live.observers.pending

theorem renders_of_boundary? (h : s.boundary? id = some b) : s.renders id = b.renders := by
  rw [renders, h]
  rfl

theorem renders_of_boundary?_eq_none (h : s.boundary? id = none) : s.renders id = 0 := by
  rw [renders, h]
  rfl

/-- Nobody but one boundary holds on to anything that it did not hold on to before, and nobody is
marked again. -/
structure Released (s₁ s₂ : Stage) (id : BoundaryId) : Prop where
  holds : ∀ c, c ≠ id → s₂.Holds c →
    s₁.Holds c ∧ (s₁.isMounted c = true → s₂.isMounted c = true)
  pending : s₂.live.observers.pending.Sublist s₁.live.observers.pending

theorem released_close (s₁ : Stage) (id : BoundaryId) (ids gone : List BoundaryId)
    (reads : List Dependency) (out : Rendered) :
    Released s₁ (((s₁.settle id reads).drop gone).close id ids out) id where
  holds c hne hc := by
    obtain ⟨hholds, hleft⟩ := holds_drop (s₁.settle id reads) gone c hc
    have hholds : (s₁.live.observers.settle id reads).Holds c := hholds
    refine ⟨hholds.of_settle.resolve_left hne, fun hmounted => ?_⟩
    obtain ⟨b, hb⟩ := exists_of_isMounted (hleft hmounted)
    exact isMounted_of_boundary? ((boundary?_close_of_ne hne).trans hb)
  pending := (pending_drop (s₁.settle id reads) gone).trans List.filter_sublist

namespace Regrown

variable {reads : List Dependency} {out : Rendered}

/-- Each boundary that is left is the one that is rendered again, an old one or a new one. -/
theorem left_cases (h : Regrown s s₁ id b ids) (hclosed : Closed s₁ s₂ id (b.closed ids out) reads)
    {c : BoundaryId} {b' : Boundary} (hb' : s₂.boundary? c = some b') :
    c = id ∧ b' = b.closed ids out ∨ c ≠ id ∧ s.boundary? c = some b'
      ∨ s.lastId < c ∧ s₁.boundary? c = some b' := by
  by_cases hne : c = id
  · subst hne
    exact .inl ⟨rfl, (Option.some.inj (hclosed.boundary?_self.symm.trans hb')).symm⟩
  · have hleft := (hclosed.left c b' hne hb').1
    rcases h.old_or_new hne hleft with ⟨hold, -⟩ | hlt
    · exact .inr (.inl ⟨hne, hold⟩)
    · exact .inr (.inr ⟨hlt, hleft⟩)

theorem orderly_closed (h : Regrown s s₁ id b ids) (hs : s.Orderly)
    (htends : Tends (s.opened id) s₁) (hids : ids.Nodup)
    (hclosed : Closed s₁ s₂ id (b.closed ids out) reads) : s₂.Orderly where
  toLinked := h.linked_closed hclosed
  pos c b' hb' := by
    rcases h.left_cases hclosed hb' with ⟨rfl, -⟩ | ⟨-, hold⟩ | ⟨hlt, -⟩
    · exact hs.pos c b h.boundary?
    · exact hs.pos c b' hold
    · exact Nat.zero_lt_of_lt hlt
  nodup c b' hb' := by
    rcases h.left_cases hclosed hb' with ⟨-, rfl⟩ | ⟨-, hold⟩ | ⟨hlt, hnew⟩
    · exact hids
    · exact hs.nodup c b' hold
    · exact htends.nodup c b' hlt hnew

theorem keeps_closed (h : Regrown s s₁ id b ids) (hs : s.Orderly)
    (htends : Tends (s.opened id) s₁) (hids : ids.Nodup)
    (hclosed : Closed s₁ s₂ id (b.closed ids out) reads) (hreleased : Released s₁ s₂ id) :
    Keeps s s₂ where
  orderly := h.orderly_closed hs htends hids hclosed
  lastId_le := hclosed.lastId_eq ▸ h.sprouts.lastId_le
  place? c p hc hp := h.place?_of_le hc ▸ hclosed.place? c p hp
  holds c hc := by
    by_cases hne : c = id
    · rw [hne]
      exact .inl (isMounted_of_boundary? hclosed.boundary?_self)
    · obtain ⟨hholds, hleft⟩ := hreleased.holds c hne hc
      rcases htends.holds c hholds with hold | ⟨-, hnew⟩
      · have hold : s.Holds c := hold
        refine hold.mounted_or.imp_left fun hc => hleft ?_
        obtain ⟨b', hb'⟩ := exists_of_isMounted hc
        exact isMounted_of_boundary? (h.boundary?_of_ne hne hb')
      · exact .inl (hleft hnew)

/-- A boundary that is rendered again is rendered once more, and a new one for the first time. -/
theorem renders_closed (h : Regrown s s₁ id b ids) (htends : Tends (s.opened id) s₁)
    (hclosed : Closed s₁ s₂ id (b.closed ids out) reads) {c : BoundaryId} {b' : Boundary}
    (hb' : s₂.boundary? c = some b') :
    b'.renders = s.renders c + if c = id ∨ s.lastId < c then 1 else 0 := by
  rcases h.left_cases hclosed hb' with ⟨rfl, rfl⟩ | ⟨hne, hold⟩ | ⟨hlt, hnew⟩
  · rw [if_pos (.inl rfl), renders_of_boundary? h.boundary?]
    rfl
  · have hle : ¬s.lastId < c := Nat.not_lt_of_le (h.bounded c b' hold)
    rw [if_neg fun hor => hor.elim hne hle, renders_of_boundary? hold, Nat.add_zero]
  · have hnone := boundary?_eq_none (isMounted_of_lt h.bounded hlt)
    rw [if_pos (.inr hlt), renders_of_boundary?_eq_none hnone, htends.renders_eq c b' hlt hnew]

/-- A boundary that is closed with different children leaves the stage orderly. -/
theorem renewed (h : Regrown s s₁ id b ids) (hs : s.Orderly) (htends : Tends (s.opened id) s₁)
    (hids : ids.Nodup) (hclosed : Closed s₁ s₂ id (b.closed ids out) reads)
    (hreleased : Released s₁ s₂ id) : Renewed s s₂ id where
  toKeeps := h.keeps_closed hs htends hids hclosed hreleased
  mounted := isMounted_of_boundary? hclosed.boundary?_self
  parent c p parent hc hp hparent := by
    obtain ⟨b', hb', rfl⟩ := exists_boundary? (hclosed.place? c p hp)
    rcases (h.sprouts.sprout c b' hc hb').listed with ⟨howner, -⟩ | ⟨_, _, hparent', hlt, -⟩
    · exact .inl (Option.some.inj (hparent.symm.trans howner))
    · obtain rfl := Option.some.inj (hparent.symm.trans hparent')
      exact .inr hlt
  renders_eq _ _ hb' := h.renders_closed htends hclosed hb'
  pending := hreleased.pending.trans htends.pending

end Regrown

end Stage

open Stage

namespace Recorded

variable {s : Stage} {id : BoundaryId} {b : Boundary}

/-- Who is lost was there before and is not mounted any more. -/
theorem mem_lost {before after : Stage} :
    id ∈ lost before after ↔ before.isMounted id = true ∧ after.isMounted id = false := by
  rw [lost, List.mem_filter, ← IdMap.contains_iff_mem_keys, Bool.not_eq_true']
  rfl

/-- Those that are dropped when a stage becomes another one. -/
structure Gone (s s' : Stage) (gone : List BoundaryId) : Prop where
  le_lastId : ∀ c ∈ gone, c ≤ s'.lastId
  not_mounted : ∀ c ∈ gone, s'.isMounted c = false
  mem : ∀ c, s.isMounted c = true → s'.isMounted c = false → c ∈ gone

/-- The frame of a boundary that is rendered again fits the stage that it is opened in. -/
theorem fits_opened (hs : s.Orderly) (hb : s.boundary? id = some b) :
    Fits (s.opened id) (some ⟨id, b.children, []⟩) := by
  refine ⟨bounded_opened hs.bounded, fun owner howner => ?_, fun c hc => ?_, hs.nodup id b hb⟩
  · obtain rfl := Option.some.inj howner
    exact hs.bounded id b hb
  · obtain ⟨-, p, hp, -⟩ := hs.child id b c hb hc
    obtain ⟨b', hb', -⟩ := exists_boundary? hp
    exact hs.bounded c b' hb'

section

variable {body : Recorded Rendered} {ids : List BoundaryId}

theorem Grown.regrown (hgrown : Grown (s.opened id) (some ⟨id, b.children, []⟩) body ids)
    (hs : s.Orderly) (hb : s.boundary? id = some b) :
    Regrown s (body.run (s.opened id) (some ⟨id, b.children, []⟩)).stage id b ids :=
  ⟨hs.toLinked, hb, hgrown.sprouts, fun c hc =>
    (hgrown.origin c hc).imp_left fun hold => List.mem_of_mem_take hold⟩

/-- To render a boundary again is to close it with what its body asks for. -/
theorem Grown.render_closed (hgrown : Grown (s.opened id) (some ⟨id, b.children, []⟩) body ids)
    (hs : s.Orderly) (hb : s.boundary? id = some b) :
    ∃ (events : List Event) (reads : List Dependency) (out : Rendered) (s' : Stage),
      (render id body).run s none = ⟨(), ⟨[], events⟩, s', none⟩ ∧ Renewed s s' id
      ∧ Closed (body.run (s.opened id) (some ⟨id, b.children, []⟩)).stage s' id (b.closed ids out)
        reads := by
  have hregrown := hgrown.regrown hs hb
  have hrun : (render id body).run s none = _ := Rendering.render_eq hb hgrown.frame?_eq
  have hsprouts := hgrown.sprouts
  have htends := hgrown.tends
  generalize body.run (s.opened id) (some ⟨id, b.children, []⟩) = first
    at hsprouts htends hregrown hrun ⊢
  have hclosed := hregrown.closed first.trace.reads first.value
  exact ⟨_, _, _, _, hrun,
    hregrown.renewed hs htends hgrown.nodup hclosed (released_close _ _ _ _ _ _), hclosed⟩

end

/-- To render a boundary again is to render it first, then what is new beneath it, and then to drop
what is gone. -/
theorem Grows.render_renewed {body : Recorded Rendered} (hbody : body.Grows) (hs : s.Orderly)
    (hb : s.boundary? id = some b) :
    ∃ (events : List Event) (s' : Stage) (gone : List BoundaryId),
      (render id body).run s none = ⟨(), ⟨[], events⟩, s', none⟩ ∧ Renewed s s' id
      ∧ (render id body).deeds s none
        = .rendered id :: (births s.lastId s'.lastId ++ gone.map .dropped)
      ∧ Gone s s' gone := by
  obtain ⟨ids, hgrown⟩ := hbody _ _ (fits_opened hs hb)
  obtain ⟨events, reads, out, s', hrun, hrenewed, hclosed⟩ := hgrown.render_closed hs hb
  have hdeeds : (render id body).deeds s none
      = .rendered id :: (body.deeds (s.opened id) (some ⟨id, b.children, []⟩)
        ++ (lost (body.run (s.opened id) (some ⟨id, b.children, []⟩)).stage
          ((render id body).run s none).stage).map .dropped) := deeds_render hb
  rw [hgrown.deeds_eq, hrun, ← hclosed.lastId_eq] at hdeeds
  refine ⟨events, s', _, hrun, hrenewed, hdeeds, fun c hc => ?_, fun c hc => (mem_lost.1 hc).2,
    fun c hc hc' => mem_lost.2 ⟨?_, hc'⟩⟩
  · obtain ⟨b', hb'⟩ := exists_of_isMounted (mem_lost.1 hc).1
    exact Nat.le_trans (hgrown.sprouts.bounded c b' hb') (Nat.le_of_eq hclosed.lastId_eq.symm)
  · obtain ⟨p, hp⟩ := isMounted_iff_place?.1 hc
    exact isMounted_iff_place?.2 ⟨p, (hgrown.regrown hs hb).place?_eq_some hp⟩

/-! ## Many boundaries -/

theorem rerenderAll_cons_of_unmounted (v : Interpreter) (rest : List BoundaryId)
    (hid : s.isMounted id = false) :
    (rerenderAll v (id :: rest)).run s none = (rerenderAll v rest).run s none
      ∧ (rerenderAll v (id :: rest)).deeds s none = (rerenderAll v rest).deeds s none :=
  choose_of_eq (if_neg (Bool.eq_false_iff.1 hid))

/-- A boundary that is mounted is rendered again before the others. -/
theorem rerenderAll_cons (v : Interpreter) (rest : List BoundaryId)
    (hb : s.boundary? id = some b) :
    let s' := ((rerender v id).run s none).stage
    ((rerenderAll v (id :: rest)).run s none).stage = ((rerenderAll v rest).run s' none).stage
      ∧ ((rerenderAll v (id :: rest)).run s none).value
        = ((rerenderAll v rest).run s' none).value + 1
      ∧ (rerenderAll v (id :: rest)).deeds s none
        = (rerender v id).deeds s none ++ (rerenderAll v rest).deeds s' none := by
  have hframe : ((rerender v id).run s none).frame? = none := by
    rw [(rerender_of_boundary? v hb).1]
    show (Rendering.render id _ s none).frame? = none
    unfold Rendering.render
    rw [hb]
  have hfirst := bind_of_eq (p := rerender v id)
    (k := fun _ => rerenderAll v rest >>= fun others => pure (others + 1)) rfl rfl hframe
  obtain ⟨hall, hlog⟩ : (rerenderAll v (id :: rest)).run s none = _
      ∧ (rerenderAll v (id :: rest)).deeds s none = _ :=
    choose_of_eq (if_pos (isMounted_of_boundary? hb))
  rw [hall, hlog, hfirst.1, hfirst.2]
  exact ⟨rfl, rfl, congrArg _ (List.append_nil _)⟩

theorem stage_rerenderAll_cons (v : Interpreter) (rest : List BoundaryId)
    (hb : s.boundary? id = some b) :
    ((rerenderAll v (id :: rest)).run s none).stage
      = ((rerenderAll v rest).run ((rerender v id).run s none).stage none).stage :=
  (rerenderAll_cons v rest hb).1

theorem rerenderAll_cons_of_boundary? (v : Interpreter) (rest : List BoundaryId) (hs : s.Orderly)
    (hb : s.boundary? id = some b) :
    ∃ (s' : Stage) (gone : List BoundaryId), Renewed s s' id
      ∧ ((rerenderAll v (id :: rest)).run s none).stage = ((rerenderAll v rest).run s' none).stage
      ∧ ((rerenderAll v (id :: rest)).run s none).value
        = ((rerenderAll v rest).run s' none).value + 1
      ∧ (rerenderAll v (id :: rest)).deeds s none
        = .rendered id :: (births s.lastId s'.lastId ++ gone.map .dropped)
          ++ (rerenderAll v rest).deeds s' none
      ∧ Gone s s' gone := by
  obtain ⟨events, s', gone, hrun, hrenewed, hdeeds, hgone⟩ :=
    (evaluate_grows v b.role b.node b.context).render_renewed hs hb
  obtain ⟨hrerender, hrerendered⟩ := rerender_of_boundary? v hb
  obtain ⟨hstage, hvalue, hlog⟩ := rerenderAll_cons v rest hb
  rw [hrerender.trans hrun] at hstage hvalue hlog
  rw [hrerendered.trans hdeeds] at hlog
  exact ⟨s', gone, hrenewed, hstage, hvalue, hlog, hgone⟩

theorem rerender_renewed (v : Interpreter) (hs : s.Orderly) (hb : s.boundary? id = some b) :
    Renewed s ((rerender v id).run s none).stage id := by
  obtain ⟨events, s', gone, hrun, hrenewed, -⟩ :=
    (evaluate_grows v b.role b.node b.context).render_renewed hs hb
  rw [(rerender_of_boundary? v hb).1, hrun]
  exact hrenewed

/-- What each of the renderings keeps is kept by all of them. -/
theorem rerenderAll_induction (v : Interpreter) {ids : List BoundaryId} {P : Stage → Prop}
    (hs : s.Orderly) (h : P s) (hstep : ∀ s₁ id b, id ∈ ids → s₁.Orderly →
      s₁.boundary? id = some b → P s₁ → P ((rerender v id).run s₁ none).stage) :
    P ((rerenderAll v ids).run s none).stage := by
  induction ids generalizing s with
  | nil => exact h
  | cons id rest ih =>
    have hrest : ∀ s₁ other b, other ∈ rest → s₁.Orderly → s₁.boundary? other = some b → P s₁ →
        P ((rerender v other).run s₁ none).stage :=
      fun s₁ other b hmem => hstep s₁ other b (List.mem_cons_of_mem id hmem)
    cases hb : s.boundary? id with
    | none =>
      rw [(rerenderAll_cons_of_unmounted v rest (isMounted_eq_false hb)).1]
      exact ih hs h hrest
    | some b =>
      rw [stage_rerenderAll_cons v rest hb]
      exact ih (rerender_renewed v hs hb).orderly (hstep s id b List.mem_cons_self hs hb h) hrest

/-- Rendering boundaries again keeps a stage orderly. -/
theorem rerenderAll_keeps (v : Interpreter) (ids : List BoundaryId) (hs : s.Orderly) :
    Keeps s ((rerenderAll v ids).run s none).stage :=
  rerenderAll_induction (P := Keeps s) v hs (.refl hs) fun _ _ _ _ hs₁ hb hkeeps =>
    hkeeps.trans (rerender_renewed v hs₁ hb).toKeeps

/-- The marks are taken away before the boundaries are rendered again. -/
theorem orderly_unmarked (hs : s.Orderly) : (unmarked s).Orderly :=
  ⟨⟨hs.bounded, hs.child, hs.listed⟩, hs.pos, hs.nodup⟩

theorem flush_keeps (v : Interpreter) (hs : s.Orderly) : Keeps s ((flush v).run s none).stage := by
  have hkeeps := rerenderAll_keeps v s.live.observers.pending (orderly_unmarked hs)
  refine ⟨hkeeps.orderly, hkeeps.lastId_le, hkeeps.place?, fun id hid => ?_⟩
  refine (hkeeps.holds id hid).imp_right fun ⟨hholds, hnot⟩ => ⟨?_, hnot⟩
  exact .inl (hholds.resolve_right List.not_mem_nil)

end Recorded

end BoundView
