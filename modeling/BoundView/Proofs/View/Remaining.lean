import BoundView.Proofs.View.FlushOrder
import BoundView.Proofs.View.Marks

/-!
# Marks that remain

Whoever is rendered for the first time, looked at from outside or taken away gives up its own mark
and nobody else's.  Main statement: a call that is no flush leaves a mark alone, unless it takes the
marked boundary away.
-/

namespace BoundView

open Stage

/-! ## What holds of every rendering -/

namespace Rendering

/-- A property of renderings that is kept by each way to put them together. -/
structure Compositional (P : ∀ {α : Type}, Rendering α → Prop) : Prop where
  pure : ∀ {α : Type} (a : α), P (pure a : Rendering α)
  ofReading : ∀ {α : Type} (m : Reading α), P (ofReading m)
  bind : ∀ {α β : Type} {m : Rendering α} {f : α → Rendering β}, P m → (∀ a, P (f a)) → P (m >>= f)
  child : ∀ {body : Rendering Rendered}, P body → ∀ role node ctx, P (child role node ctx body)

namespace Compositional

variable {P : ∀ {α : Type}, Rendering α → Prop} {v : Interpreter}

theorem renderElement (h : Compositional P) (v : Interpreter) (tag : String)
    {props : Rendering (Members Rendered)} (hprops : P props) : P (v.renderElement tag props) := by
  refine h.bind hprops fun props => ?_
  split
  · exact h.pure _
  · exact h.pure _

theorem renderItems (h : Compositional P) (template : ViewNode)
    {render : Context → Rendering Rendered} (hrender : ∀ scope, P (render scope)) (ctx : Context)
    (index : Nat) (items : List Value) :
    P (Interpreter.renderItems template render ctx index items) := by
  induction items generalizing index with
  | nil => exact h.pure _
  | cons item rest ih =>
    exact h.bind (h.child (hrender _) _ _ _) fun _ => h.bind (ih (index + 1)) fun _ => h.pure _

theorem renderCollection (h : Compositional P) {source : Rendering Rendered} (hsource : P source)
    (template : ViewNode) {render : Context → Rendering Rendered}
    (hrender : ∀ scope, P (render scope)) (ctx : Context) :
    P (Interpreter.renderCollection source template render ctx) :=
  h.bind hsource fun _ => h.bind (h.ofReading _) fun items =>
    h.bind (h.renderItems template hrender ctx 0 items) fun _ => h.pure _

mutual

/-- Such a property holds of the rendering of every node. -/
theorem resolve (h : Compositional P) : ∀ (node : ViewNode) (ctx : Context), P (v.resolve ctx node)
  | .literal value, ctx => by
    rw [Interpreter.resolve]
    exact h.pure _
  | .read expression, ctx => by
    rw [Interpreter.resolve]
    exact h.bind (h.ofReading _) fun _ => h.pure _
  | .write expression, ctx => by
    rw [Interpreter.resolve]
    exact h.pure _
  | .sequence items, ctx => by
    rw [Interpreter.resolve]
    exact h.bind (resolveItems h items ctx) fun _ => h.pure _
  | .collection source template, ctx => by
    rw [Interpreter.resolve]
    have hbody := h.renderCollection (resolve h source ctx) template
      (fun scope => resolve h template scope) ctx
    exact h.bind (h.child hbody _ _ _) fun _ => h.pure _
  | .element tag props, ctx => by
    rw [Interpreter.resolve]
    have hbody := h.renderElement v tag (resolveProps h props ctx)
    exact h.bind (h.child hbody _ _ _) fun _ => h.pure _
  | .raw document, ctx => by
    rw [Interpreter.resolve]
    exact h.pure _

theorem resolveItems (h : Compositional P) :
    ∀ (items : List ViewNode) (ctx : Context), P (v.resolveItems ctx items)
  | [], ctx => by
    rw [Interpreter.resolveItems]
    exact h.pure _
  | item :: rest, ctx => by
    rw [Interpreter.resolveItems]
    exact h.bind (resolve h item ctx) fun _ => h.bind (resolveItems h rest ctx) fun _ => h.pure _

theorem resolveProps (h : Compositional P) :
    ∀ (props : List (String × ViewNode)) (ctx : Context), P (v.resolveProps ctx props)
  | [], ctx => by
    rw [Interpreter.resolveProps]
    exact h.pure _
  | (name, prop) :: rest, ctx => by
    rw [Interpreter.resolveProps]
    exact h.bind (resolve h prop ctx) fun _ => h.bind (h.ofReading _) fun _ =>
      h.bind (resolveProps h rest ctx) fun _ => h.pure _

end

end Compositional

/-! ## Renderings that spare marks -/

/-- Whoever had a number before keeps its mark. -/
def Spares {α : Type} (m : Rendering α) : Prop :=
  ∀ s frame?, s.lastId ≤ (m s frame?).stage.lastId ∧ ∀ id ≤ s.lastId,
    id ∈ s.live.observers.pending → id ∈ (m s frame?).stage.live.observers.pending

/-- A boundary that is made has no mark, and no children that it could lose. -/
theorem Spares.spawn {body : Rendering Rendered} (h : body.Spares) (role : Role) (node : ViewNode)
    (ctx : Context) (parent? : Option BoundaryId) : (spawn role node ctx parent? body).Spares := by
  intro s frame?
  obtain ⟨hlast, hspares⟩ := h ((planted s role node ctx parent?).opened (s.lastId + 1))
    (some ⟨s.lastId + 1, [], []⟩)
  have hstage : (Rendering.spawn role node ctx parent? body s frame?).stage
      = (render (s.lastId + 1) body (planted s role node ctx parent?) frame?).stage := rfl
  rw [hstage, render, boundary?_planted_self]
  dsimp only
  rw [List.filter_nil, drop_nil]
  refine ⟨Nat.le_trans (Nat.le_succ _) hlast, fun id hid hmarked => ?_⟩
  have hkept := hspares id (Nat.le_trans hid (Nat.le_succ _)) hmarked
  exact Observers.pending_settle.2 ⟨hkept, Nat.ne_of_lt (Nat.lt_succ_of_le hid)⟩

theorem compositional_spares : Compositional Spares where
  pure _ _ _ := ⟨Nat.le_refl _, fun _ _ h => h⟩
  ofReading _ _ _ := ⟨Nat.le_refl _, fun _ _ h => h⟩
  bind hm hf s frame? := by
    obtain ⟨hlast, hspares⟩ := hm s frame?
    obtain ⟨hlast', hspares'⟩ := hf _ _ _
    exact ⟨Nat.le_trans hlast hlast', fun id hid hmarked =>
      hspares' id (Nat.le_trans hid hlast) (hspares id hid hmarked)⟩
  child hbody role node ctx s frame? := by
    unfold Rendering.child
    split
    · exact hbody.spawn role node ctx none s none
    · dsimp only
      split
      -- A child that is kept is left alone.
      · exact ⟨Nat.le_refl _, fun _ _ h => h⟩
      · exact hbody.spawn role node ctx _ s _

theorem spares_mount (v : Interpreter) (node : ViewNode) (ctx : Context) :
    (v.mount node ctx).Spares :=
  Spares.spawn (compositional_spares.resolve node ctx) .view node ctx none

end Rendering

namespace Stage

variable {s s' s'' : Stage} {id other : BoundaryId}

/-! ## Boundaries that are taken away -/

theorem isMounted_drop (h : s.isMounted id = false) (ids : List BoundaryId) :
    (s.drop ids).isMounted id = false := by
  refine drop_preserves (P := fun s' => s'.isMounted id = false) (fun s' other h => ?_) s ids h
  by_cases hne : id = other
  · rw [hne]
    exact isMounted_eq_false boundary?_removeBoundary_self
  · exact isMounted_eq_false ((boundary?_removeBoundary_of_ne hne).trans (boundary?_eq_none h))

/-- Whoever is marked is marked afterwards, or is dropped. -/
theorem mem_pending_drop (s : Stage) (ids : List BoundaryId)
    (h : id ∈ s.live.observers.pending) : id ∈ (s.drop ids).live.observers.pending
      ∨ s.isMounted id = true ∧ (s.drop ids).isMounted id = false := by
  induction s, ids using Stage.drop.induct with
  | case1 s =>
    rw [drop_nil]
    exact .inl h
  | case2 s other rest hnone ih =>
    rw [drop_cons_of_none hnone]
    exact ih h
  | case3 s other rest b hb ih =>
    rw [drop_cons_of_some hb]
    by_cases hne : id = other
    · subst hne
      exact .inr ⟨isMounted_of_boundary? hb,
        isMounted_drop (isMounted_eq_false boundary?_removeBoundary_self) _⟩
    · refine (ih (List.mem_filter.2 ⟨h, decide_eq_true hne⟩)).imp_right fun hdropped => ?_
      obtain ⟨hmounted, hgone⟩ := hdropped
      obtain ⟨b', hb'⟩ := exists_of_isMounted hmounted
      exact ⟨isMounted_of_boundary? ((boundary?_removeBoundary_of_ne hne).symm.trans hb'), hgone⟩

/-- Whoever is left is as it was. -/
theorem boundary?_drop (ids : List BoundaryId) {b : Boundary}
    (h : (s.drop ids).boundary? id = some b) : s.boundary? id = some b := by
  refine drop_preserves (P := fun s' => ∀ b, s'.boundary? id = some b → s.boundary? id = some b)
    (fun s' other hs' b hb => ?_) s ids (fun _ hb => hb) b h
  by_cases hne : id = other
  · subst hne
    exact nomatch boundary?_removeBoundary_self.symm.trans hb
  · exact hs' b ((boundary?_removeBoundary_of_ne hne).symm.trans hb)

theorem renders_drop (ids : List BoundaryId) (h : (s.drop ids).isMounted id = true) :
    (s.drop ids).renders id = s.renders id := by
  obtain ⟨b, hb⟩ := exists_of_isMounted h
  rw [renders_of_boundary? hb, renders_of_boundary? (boundary?_drop ids hb)]

theorem renders_eq_of_boundary? (h : s'.boundary? id = s.boundary? id) :
    s'.renders id = s.renders id := by
  rw [renders, renders, h]

theorem renders_struck : (s.struck id).renders other = s.renders other := by
  unfold struck
  split
  · rename_i parent _
    by_cases hne : other = parent
    · subst hne
      rw [renders, renders, boundary?_modifyBoundary_self]
      cases s.boundary? other <;> rfl
    · exact renders_eq_of_boundary? (boundary?_modifyBoundary_of_ne _ hne)
  · rfl

theorem isMounted_struck : (s.struck id).isMounted other = s.isMounted other := by
  rw [Bool.eq_iff_iff, isMounted_iff_place?, isMounted_iff_place?]
  simp only [place?_struck]

/-! ## Stages as time passes -/

/-- No number is given twice, and what is left was not rendered fewer times. -/
structure Passes (s s' : Stage) : Prop where
  lastId_le : s.lastId ≤ s'.lastId
  isMounted : ∀ id ≤ s.lastId, s'.isMounted id = true → s.isMounted id = true
  renders_le : ∀ id ≤ s.lastId, s'.isMounted id = true → s.renders id ≤ s'.renders id

theorem Passes.refl (s : Stage) : Passes s s :=
  ⟨Nat.le_refl _, fun _ _ h => h, fun _ _ _ => Nat.le_refl _⟩

theorem Passes.trans (h : Passes s s') (h' : Passes s' s'') : Passes s s'' where
  lastId_le := Nat.le_trans h.lastId_le h'.lastId_le
  isMounted id hid hmounted :=
    h.isMounted id hid (h'.isMounted id (Nat.le_trans hid h.lastId_le) hmounted)
  renders_le id hid hmounted := by
    have hid' := Nat.le_trans hid h.lastId_le
    exact Nat.le_trans (h.renders_le id hid (h'.isMounted id hid' hmounted))
      (h'.renders_le id hid' hmounted)

end Stage

/-! ## One call -/

namespace World

variable {v : Interpreter} {w : World} {id : ObserverId} {errand : Errand}

theorem pending_mount (node : ViewNode) (ctx : Context) (hid : id ≤ w.stage.lastId)
    (hmarked : id ∈ w.stage.live.observers.pending) :
    id ∈ (w.perform (v.mount node ctx)).stage.live.observers.pending :=
  (Rendering.spares_mount v node ctx w.stage none).2 id hid hmarked

/-- Nobody's mark is taken away but that of who is evaluated or taken away. -/
theorem mem_pending_after (hflush : errand ≠ .flush) (hid : id ≤ w.stage.lastId)
    (houtside : id ∉ w.outside) (hmarked : id ∈ w.stage.live.observers.pending) :
    id ∈ (w.after v errand).stage.live.observers.pending
      ∨ w.stage.isMounted id = true ∧ (w.after v errand).stage.isMounted id = false := by
  cases errand with
  | create schema type initial =>
    rw [World.after]
    split
    · rename_i heq
      have hobservers := congrArg Observers.pending (observers_of_create heq)
      exact .inl (hobservers.symm ▸ hmarked)
    · exact .inl hmarked
  | patch r patch =>
    rw [World.after]
    split
    · rename_i heq
      have hobservers := congrArg Observers.pending (Live.apply_eq_ok heq).2
      exact .inl (hobservers.symm ▸ Observers.mem_pending_notify_iff.2 (.inr hmarked))
    · exact .inl hmarked
  | observe => exact .inl hmarked
  | track observer reading =>
    rw [World.after]
    split
    · rename_i hmem
      refine .inl (Observers.pending_settle.2 ⟨hmarked, ?_⟩)
      rintro rfl
      exact houtside hmem
    · exact .inl hmarked
  | mount node ctx => exact .inl (pending_mount node ctx hid hmarked)
  | renderView document ctx => exact .inl (pending_mount document.shown ctx hid hmarked)
  | resolve node ctx =>
    exact .inl ((Rendering.compositional_spares.resolve node ctx w.stage none).2 id hid hmarked)
  | flush => exact absurd rfl hflush
  | unmount other =>
    have hstruck : id ∈ (w.stage.struck other).live.observers.pending := by
      rw [live_struck]
      exact hmarked
    refine (mem_pending_drop _ [other] hstruck).imp_right fun hdropped => ⟨?_, hdropped.2⟩
    rw [← isMounted_struck, hdropped.1]
  | unmountAll => exact mem_pending_drop _ _ hmarked

/-- A world whose observers may have other boundaries besides: the numbers of all of them were
given, and the marks ascend. -/
structure Shared (w : World) : Prop where
  stage : w.stage.Orderly
  holds_le : ∀ id, w.stage.Holds id → id ≤ w.stage.lastId
  sorted : w.stage.live.observers.pending.Pairwise (· < ·)
  outside_le : ∀ id ∈ w.outside, id ≤ w.stage.lastId
  not_mounted : ∀ id ∈ w.outside, w.stage.isMounted id = false

theorem Orderly.shared (h : w.Orderly) (hsorted : w.stage.live.observers.pending.Pairwise (· < ·)) :
    w.Shared where
  stage := h.stage
  holds_le id hid := by
    rcases h.holds id hid with hmounted | houtside
    · obtain ⟨b, hb⟩ := exists_of_isMounted hmounted
      exact h.stage.bounded id b hb
    · exact h.outside_le id houtside
  sorted := hsorted
  outside_le := h.outside_le
  not_mounted := h.not_mounted

/-- A world in which whoever has a number and is no boundary of its own is outside. -/
def widened (w : World) : World :=
  { w with outside := (List.range (w.stage.lastId + 1)).filter fun id => !w.stage.isMounted id }

theorem stage_widened (w : World) : w.widened.stage = w.stage := rfl

theorem mem_widened :
    id ∈ w.widened.outside ↔ id ≤ w.stage.lastId ∧ w.stage.isMounted id = false := by
  rw [widened, List.mem_filter, List.mem_range, Nat.lt_succ_iff, Bool.not_eq_true']

theorem Shared.widened (h : w.Shared) : w.widened.Orderly where
  stage := h.stage
  holds id hid := by
    cases hmounted : w.stage.isMounted id with
    | true => exact .inl hmounted
    | false => exact .inr (mem_widened.2 ⟨h.holds_le id hid, hmounted⟩)
  outside_le id hid := (mem_widened.1 hid).1
  not_mounted id hid := (mem_widened.1 hid).2

/-- Only new observers come to be outside. -/
theorem outside_after (w : World) (errand : Errand) : (w.after v errand).outside = w.outside
    ∨ errand = .observe ∧ (w.after v errand).outside = (w.stage.lastId + 1) :: w.outside := by
  cases errand with
  | create schema type initial =>
    rw [World.after]
    split <;> exact .inl rfl
  | patch r patch =>
    rw [World.after]
    split <;> exact .inl rfl
  | observe => exact .inr ⟨rfl, rfl⟩
  | track observer reading =>
    rw [World.after]
    split <;> exact .inl rfl
  | mount | renderView | resolve | flush | unmount | unmountAll => exact .inl rfl

theorem of_mem_outside_after (hid : id ∈ (w.after v errand).outside) :
    id ∈ w.outside ∨ errand = .observe ∧ id = w.stage.lastId + 1 := by
  rcases w.outside_after (v := v) errand with heq | ⟨hobserve, heq⟩
  · rw [heq] at hid
    exact .inl hid
  · rw [heq] at hid
    rcases List.mem_cons.1 hid with hnew | hid
    · exact .inr ⟨hobserve, hnew⟩
    · exact .inl hid

theorem mem_outside_after (errand : Errand) (hid : id ∈ w.outside) :
    id ∈ (w.after v errand).outside := by
  rcases w.outside_after (v := v) errand with heq | ⟨-, heq⟩
  · rw [heq]
    exact hid
  · rw [heq]
    exact List.mem_cons_of_mem _ hid

/-- A call does the same to a world that is widened, or nothing. -/
theorem Shared.stage_after (h : w.Shared) (errand : Errand) :
    (w.after v errand).stage = (w.widened.after v errand).stage ∨ w.after v errand = w := by
  cases errand with
  | create schema type initial =>
    left
    rw [World.after, World.after, stage_widened]
    split <;> rfl
  | patch r patch =>
    left
    rw [World.after, World.after, stage_widened]
    split <;> rfl
  | track observer reading =>
    rw [World.after, World.after]
    by_cases hmem : observer ∈ w.outside
    · have hwidened := mem_widened.2 ⟨h.outside_le observer hmem, h.not_mounted observer hmem⟩
      rw [if_pos hmem, if_pos hwidened]
      exact .inl rfl
    · rw [if_neg hmem]
      exact .inr rfl
  | observe | mount | renderView | resolve | flush | unmount | unmountAll => exact .inl rfl

theorem Shared.flush_flushes (h : w.Shared) :
    ∃ count log, Flushes w.stage (w.after v .flush).stage count log := by
  have hflushes := Recorded.flush_flushes v h.stage h.sorted fun id hid => h.holds_le id (.inr hid)
  rw [Recorded.run_flush] at hflushes
  exact ⟨_, _, hflushes⟩

theorem Shared.renders_mount (h : w.Shared) (node : ViewNode) (ctx : Context)
    (hid : id ≤ w.stage.lastId) :
    (w.perform (v.mount node ctx)).stage.renders id = w.stage.renders id := by
  obtain ⟨stage, hperform, hsprouts, -⟩ := h.widened.perform_mount (v := v) node ctx
  have hstage : (w.perform (v.mount node ctx)).stage = stage := congrArg World.stage hperform
  rw [hstage]
  exact renders_eq_of_boundary? (hsprouts.boundary?_eq id hid)

/-- No call makes anyone rendered fewer times. -/
theorem Shared.renders_le (h : w.Shared) (errand : Errand) (hid : id ≤ w.stage.lastId)
    (hmounted : (w.after v errand).stage.isMounted id = true) :
    w.stage.renders id ≤ (w.after v errand).stage.renders id := by
  cases errand with
  | create schema type initial =>
    rw [World.after]
    split <;> exact Nat.le_refl _
  | patch r patch =>
    rw [World.after]
    split <;> exact Nat.le_refl _
  | track observer reading =>
    rw [World.after]
    split <;> exact Nat.le_refl _
  | observe => exact Nat.le_refl _
  | mount node ctx => exact (h.renders_mount node ctx hid).ge
  | renderView document ctx => exact (h.renders_mount document.shown ctx hid).ge
  | resolve node ctx =>
    obtain ⟨ids, hgrown⟩ := Recorded.resolve_grows v node ctx w.stage none h.widened.fits
    have hsprouts := hgrown.sprouts
    rw [Recorded.run_resolve] at hsprouts
    have heq : (w.after v (.resolve node ctx)).stage.boundary? id = w.stage.boundary? id :=
      hsprouts.boundary?_eq id hid
    rw [renders_eq_of_boundary? heq]
  | flush =>
    obtain ⟨count, log, hflushes⟩ := h.flush_flushes (v := v)
    rw [hflushes.renders_eq id hmounted]
    exact Nat.le_add_right _ _
  | unmount other =>
    have heq : (w.after v (.unmount other)).stage.renders id = w.stage.renders id :=
      (renders_drop [other] hmounted).trans renders_struck
    rw [heq]
  | unmountAll =>
    have heq : (w.after v .unmountAll).stage.renders id = w.stage.renders id :=
      renders_drop _ hmounted
    rw [heq]

/-- What is asked of a world holds after every call, and nothing on its stage has gone back. -/
theorem Shared.after (h : w.Shared) (errand : Errand) : (w.after v errand).Shared
    ∧ Passes w.stage (w.after v errand).stage := by
  rcases h.stage_after (v := v) errand with hstage | hstage
  · obtain ⟨horderly, hfollows⟩ := h.widened.after (v := v) errand
    have hshared := horderly.shared (sorted_after h.widened h.sorted errand)
    have hlast : w.stage.lastId ≤ (w.after v errand).stage.lastId := by
      rw [hstage]
      exact hfollows.lastId_le
    have hkept : ∀ id ≤ w.stage.lastId, w.stage.isMounted id = false →
        (w.after v errand).stage.isMounted id = false := by
      intro id hid hnot
      rw [hstage]
      exact horderly.not_mounted id (mem_outside_after errand (mem_widened.2 ⟨hid, hnot⟩))
    refine ⟨⟨?_, ?_, ?_, fun id hid => ?_, fun id hid => ?_⟩, hlast, fun id hid hmounted => ?_,
      fun id hid hmounted => h.renders_le errand hid hmounted⟩
    · rw [hstage]
      exact hshared.stage
    · rw [hstage]
      exact hshared.holds_le
    · rw [hstage]
      exact hshared.sorted
    · rcases of_mem_outside_after hid with hid | ⟨rfl, rfl⟩
      · exact Nat.le_trans (h.outside_le id hid) hlast
      · exact Nat.le_refl _
    · rcases of_mem_outside_after hid with hid | ⟨rfl, rfl⟩
      · exact hkept id (h.outside_le id hid) (h.not_mounted id hid)
      · have hnot : w.stage.isMounted (w.stage.lastId + 1) = false :=
          isMounted_of_lt h.stage.bounded (Nat.lt_succ_self _)
        exact hnot
    · by_contra hnot
      exact Bool.false_ne_true ((hkept id hid (Bool.eq_false_iff.2 hnot)).symm.trans hmounted)
  · rw [hstage]
    exact ⟨h, .refl _⟩

end World

end BoundView
