import BoundView.Proofs.Model.Reachable
import BoundView.Proofs.View.Renewal

/-!
# All that an interpreter does

A world starts without models and without boundaries.  Models are made and patched in it, observers
that are no boundaries look at them, and an interpreter mounts views, resolves nodes, brings what it
shows up to date and takes it away.  Main statement: between any two of these calls parents and
children know each other, and no boundary that is gone is subscribed to anything or marked.
-/

namespace BoundView

structure World where
  stage : Stage
  /-- The observers that are no boundaries. -/
  outside : List ObserverId

/-- What can be called. -/
inductive Errand where
  | create (schema : Schema) (type : TypeId) (initial : Json)
  | patch (r : ModelRef) (patch : Patch)
  /-- A new observer that is no boundary. -/
  | observe
  /-- To evaluate such an observer. -/
  | track (observer : ObserverId) (reading : Reading Unit)
  | mount (node : ViewNode) (ctx : Context)
  | renderView (document : ViewDocument) (ctx : Context)
  /-- To resolve a node outside of any boundary. -/
  | resolve (node : ViewNode) (ctx : Context)
  | flush
  | unmount (id : BoundaryId)
  | unmountAll

namespace World

def empty : World :=
  ⟨⟨.empty, []⟩, []⟩

/-- The world over other models or observers. -/
def withLive (w : World) (live : Live) : World :=
  { w with stage := { w.stage with live } }

/-- The world after something was rendered outside of any boundary. -/
def perform {α : Type} (w : World) (m : Rendering α) : World :=
  { w with stage := (m.perform w.stage).2.2 }

/-- The world after a call; one that is refused changes nothing. -/
def after (v : Interpreter) (w : World) : Errand → World
  | .create schema type initial =>
    match w.stage.live.create schema type initial with
    | .ok (_, live) => w.withLive live
    | .error _ => w
  | .patch r patch =>
    match w.stage.live.apply r patch with
    | .ok (_, live) => w.withLive live
    | .error _ => w
  | .observe =>
    let (observer, live) := w.stage.live.newObserver
    { w.withLive live with outside := observer :: w.outside }
  | .track observer reading =>
    if observer ∈ w.outside then w.withLive (w.stage.live.track observer reading).2.2 else w
  | .mount node ctx => w.perform (v.mount node ctx)
  | .renderView document ctx => w.perform (v.renderView document ctx)
  | .resolve node ctx => w.perform (v.resolve ctx node)
  | .flush => w.perform v.flush
  | .unmount id => { w with stage := w.stage.unmount id }
  | .unmountAll => { w with stage := w.stage.unmountAll }

/-- The world after calls, one after the other. -/
def afterAll (v : Interpreter) (w : World) (errands : List Errand) : World :=
  errands.foldl (after v) w

end World

/-- The world after calls, from the start. -/
def Interpreter.run (v : Interpreter) (errands : List Errand) : World :=
  World.empty.afterAll v errands

/-! ## What every call keeps -/

namespace World

open Stage

variable {v : Interpreter} {w w' : World} {id : BoundaryId}

/-- A stage is orderly, and whoever holds on to anything is mounted or no boundary. -/
structure Orderly (w : World) : Prop where
  stage : w.stage.Orderly
  holds : ∀ id, w.stage.Holds id → w.stage.isMounted id = true ∨ id ∈ w.outside
  outside_le : ∀ id ∈ w.outside, id ≤ w.stage.lastId
  not_mounted : ∀ id ∈ w.outside, w.stage.isMounted id = false

/-- Numbers are given once: whoever is outside was so before or is new. -/
structure Follows (w w' : World) : Prop where
  lastId_le : w.stage.lastId ≤ w'.stage.lastId
  outside : ∀ id ∈ w'.outside, id ∈ w.outside ∨ w.stage.lastId < id

theorem Follows.refl (w : World) : Follows w w :=
  ⟨Nat.le_refl _, fun _ h => .inl h⟩

theorem Follows.trans {w'' : World} (h : Follows w w') (h' : Follows w' w'') : Follows w w'' where
  lastId_le := Nat.le_trans h.lastId_le h'.lastId_le
  outside id hid := by
    rcases h'.outside id hid with hid | hlt
    · exact h.outside id hid
    · exact .inr (Nat.lt_of_le_of_lt h.lastId_le hlt)

/-- Whatever an interpreter does keeps a world orderly. -/
theorem Orderly.of_keeps (h : w.Orderly) {stage : Stage} (hkeeps : Keeps w.stage stage) :
    Orderly { w with stage } ∧ Follows w { w with stage } := by
  refine ⟨⟨hkeeps.orderly, fun id hid => ?_, fun id hid => ?_, fun id hid => ?_⟩,
    ⟨hkeeps.lastId_le, fun _ hid => .inl hid⟩⟩
  · rcases hkeeps.holds id hid with hmounted | ⟨hold, hnot⟩
    · exact .inl hmounted
    · exact .inr ((h.holds id hold).resolve_left (Bool.eq_false_iff.1 hnot))
  · exact Nat.le_trans (h.outside_le id hid) hkeeps.lastId_le
  · refine Bool.eq_false_iff.2 fun hmounted => ?_
    exact Bool.eq_false_iff.1 (h.not_mounted id hid)
      (hkeeps.isMounted (h.outside_le id hid) hmounted)

/-- What is done to the models and the observers leaves the boundaries alone. -/
theorem Orderly.withLive (h : w.Orderly) {live : Live}
    (hlast : w.stage.lastId ≤ live.observers.lastId)
    (hholds : ∀ id, live.observers.Holds id → w.stage.Holds id ∨ id ∈ w.outside) :
    Orderly (w.withLive live) ∧ Follows w (w.withLive live) := by
  have hbounded : (w.withLive live).stage.Bounded :=
    fun id b hb => Nat.le_trans (h.stage.bounded id b hb) hlast
  refine ⟨⟨⟨⟨hbounded, h.stage.child, h.stage.listed⟩, h.stage.pos, h.stage.nodup⟩,
    fun id hid => ?_, fun id hid => Nat.le_trans (h.outside_le id hid) hlast, h.not_mounted⟩,
    ⟨hlast, fun _ hid => .inl hid⟩⟩
  rcases hholds id hid with hid | hid
  · exact h.holds id hid
  · exact .inr hid

/-- Numbers that were not given yet are subscribed to nothing. -/
theorem Orderly.dependencies_of_lt (h : w.Orderly) (hid : w.stage.lastId < id) :
    w.stage.dependencies id = [] := by
  refine dependencies_eq_nil fun hholds => ?_
  rcases h.holds id hholds with hmounted | houtside
  · exact Bool.false_ne_true ((isMounted_of_lt h.stage.bounded hid).symm.trans hmounted)
  · exact Nat.not_le_of_lt hid (h.outside_le id houtside)

theorem Orderly.fits (h : w.Orderly) : Recorded.Fits w.stage none :=
  ⟨h.stage.bounded, fun _ howner => (nomatch howner), fun _ hc => absurd hc List.not_mem_nil,
    List.nodup_nil⟩

theorem Orderly.perform {α : Type} (h : w.Orderly) {p : Recorded α} (hp : p.Grows) :
    Orderly (w.perform p.run) ∧ Follows w (w.perform p.run) := by
  obtain ⟨ids, hgrown⟩ := hp w.stage none h.fits
  exact h.of_keeps (hgrown.sprouts.keeps h.stage hgrown.tends)

theorem mount_eq (v : Interpreter) (node : ViewNode) (ctx : Context) : v.mount node ctx
    = (Recorded.spawn .view node ctx none (Recorded.evaluate v .view node ctx)).run := by
  show Rendering.spawn .view node ctx none _ = Rendering.spawn .view node ctx none _
  rw [Recorded.run_evaluate]

/-- To mount a view is to add boundaries. -/
theorem Orderly.perform_mount (h : w.Orderly) (node : ViewNode) (ctx : Context) :
    ∃ stage, w.perform (v.mount node ctx) = { w with stage }
      ∧ Sprouts w.stage stage none [w.stage.lastId + 1] ∧ Tends w.stage stage := by
  obtain ⟨events, stage, hrun, hsprouts, htends, -⟩ :=
    (Recorded.evaluate_grows v .view node ctx).spawn h.stage.bounded .view node ctx none none
  refine ⟨stage, ?_, hsprouts, htends⟩
  rw [mount_eq, World.perform, Rendering.perform, hrun]

theorem Orderly.mount (h : w.Orderly) (node : ViewNode) (ctx : Context) :
    Orderly (w.perform (v.mount node ctx)) ∧ Follows w (w.perform (v.mount node ctx)) := by
  obtain ⟨stage, hperform, hsprouts, htends⟩ := h.perform_mount (v := v) node ctx
  rw [hperform]
  exact h.of_keeps (hsprouts.keeps h.stage htends)

theorem observers_of_create {l live : Live} {schema : Schema} {type : TypeId} {initial : Json}
    {model : ModelId} (h : l.create schema type initial = .ok (model, live)) :
    live.observers = l.observers.fresh.2 := by
  unfold Live.create at h
  by_cases hobject : (schema.object? type).isNone = true
  · rw [if_pos hobject] at h
    cases h
  rw [if_neg hobject] at h
  obtain ⟨data, -, h⟩ := Outcome.bind_eq_ok.1 h
  rw [← (Prod.mk.inj (Except.ok.inj h)).2]
  rfl

/-- A new observer has a number that no boundary has. -/
theorem Orderly.observe (h : w.Orderly) :
    Orderly (w.after v .observe) ∧ Follows w (w.after v .observe) := by
  have hfresh : Orderly (w.withLive w.stage.live.newObserver.2)
      ∧ Follows w (w.withLive w.stage.live.newObserver.2) :=
    h.withLive (Nat.le_succ _) fun id hid => .inl hid
  obtain ⟨horderly, hfollows⟩ := hfresh
  have hlt : w.stage.lastId < w.stage.live.newObserver.1 := Nat.lt_succ_self _
  refine ⟨⟨horderly.stage, fun id hid => ?_, fun id hid => ?_, fun id hid => ?_⟩,
    hfollows.lastId_le, fun id hid => ?_⟩
  · exact (horderly.holds id hid).imp_right fun hid => List.mem_cons_of_mem _ hid
  · rcases List.mem_cons.1 hid with rfl | hid
    · exact Nat.le_refl _
    · exact horderly.outside_le id hid
  · rcases List.mem_cons.1 hid with rfl | hid
    · have hnot : w.stage.isMounted w.stage.live.newObserver.1 = false :=
        isMounted_of_lt h.stage.bounded hlt
      exact hnot
    · exact horderly.not_mounted id hid
  · rcases List.mem_cons.1 hid with rfl | hid
    · exact .inr hlt
    · exact .inl hid

theorem Orderly.after (h : w.Orderly) (errand : Errand) :
    Orderly (w.after v errand) ∧ Follows w (w.after v errand) := by
  cases errand with
  | create schema type initial =>
    unfold World.after
    dsimp only
    split
    · rename_i heq
      refine h.withLive ?_ fun id hid => .inl ?_
      · rw [observers_of_create heq]
        exact Nat.le_succ _
      · rw [observers_of_create heq] at hid
        exact hid
    · exact ⟨h, .refl w⟩
  | patch r patch =>
    unfold World.after
    dsimp only
    split
    · rename_i heq
      obtain ⟨-, hobservers⟩ := Live.apply_eq_ok heq
      refine h.withLive ?_ fun id hid => .inl ?_
      · rw [hobservers]
        exact Nat.le_refl _
      · rw [hobservers] at hid
        exact hid.of_notify
    · exact ⟨h, .refl w⟩
  | observe => exact h.observe
  | track observer reading =>
    unfold World.after
    dsimp only
    split
    · rename_i hmem
      refine h.withLive (Nat.le_refl _) fun id hid => ?_
      rcases Observers.Holds.of_settle hid with rfl | hid
      · exact .inr hmem
      · exact .inl hid
    · exact ⟨h, .refl w⟩
  | mount node ctx => exact h.mount node ctx
  | renderView document ctx => exact h.mount document.shown ctx
  | resolve node ctx =>
    have hresolve := h.perform (Recorded.resolve_grows v node ctx)
    rw [Recorded.run_resolve] at hresolve
    exact hresolve
  | flush =>
    have hflush := Recorded.flush_keeps v h.stage
    rw [Recorded.run_flush] at hflush
    exact h.of_keeps hflush
  | unmount id => exact h.of_keeps (h.stage.keeps_unmount id)
  | unmountAll => exact h.of_keeps h.stage.keeps_unmountAll

theorem Orderly.afterAll (h : w.Orderly) (errands : List Errand) :
    Orderly (w.afterAll v errands) ∧ Follows w (w.afterAll v errands) := by
  induction errands generalizing w with
  | nil => exact ⟨h, .refl w⟩
  | cons errand errands ih =>
    obtain ⟨horderly, hfollows⟩ := h.after (v := v) errand
    obtain ⟨horderly', hfollows'⟩ := ih horderly
    exact ⟨horderly', hfollows.trans hfollows'⟩

theorem orderly_empty : Orderly empty := by
  have hnone : ∀ id b, empty.stage.boundary? id ≠ some b := fun id b hb => nomatch hb
  refine ⟨orderly_of_forall_ne hnone, fun id hid => ?_, ?_, ?_⟩
  · rcases hid with hid | hid
    · exact absurd hid List.not_mem_nil
    · exact absurd hid List.not_mem_nil
  · exact fun id hid => absurd hid List.not_mem_nil
  · exact fun id hid => absurd hid List.not_mem_nil

end World

namespace Interpreter

open Stage

theorem orderly_run (v : Interpreter) (errands : List Errand) : (v.run errands).Orderly :=
  (World.orderly_empty.afterAll errands).1

theorem run_concat (v : Interpreter) (errands : List Errand) (errand : Errand) :
    v.run (errands ++ [errand]) = (v.run errands).after v errand :=
  List.foldl_append

/-- Whoever was mounted at any time is not outside later. -/
theorem not_mounted_of_outside (v : Interpreter) (earlier later : List Errand) {id : ObserverId}
    (hid : id ∈ (v.run (earlier ++ later)).outside) :
    (v.run earlier).stage.isMounted id = false := by
  have horderly := v.orderly_run earlier
  have hrun : v.run (earlier ++ later) = (v.run earlier).afterAll v later := List.foldl_append
  rw [hrun] at hid
  rcases (horderly.afterAll later).2.outside id hid with hid | hlt
  · exact horderly.not_mounted id hid
  · exact isMounted_of_lt horderly.stage.bounded hlt

/-! ## Main statement -/

/-- Between any two calls every parent is mounted, has a lower number and lists its child once,
every child names the parent that lists it, and whoever is subscribed or marked is mounted or never
was a boundary.  So nothing of a boundary is left after all roots are taken away. -/
theorem forest_run (v : Interpreter) (errands : List Errand) :
    let w := v.run errands
    (∀ id b parent, w.stage.boundary? id = some b → b.parent? = some parent →
      parent < id ∧ ∃ b', w.stage.boundary? parent = some b' ∧ b'.children.count id = 1)
    ∧ (∀ id b c, w.stage.boundary? id = some b → c ∈ b.children →
      ∃ b', w.stage.boundary? c = some b' ∧ b'.parent? = some id)
    ∧ (∀ id, w.stage.Holds id → w.stage.isMounted id = true ∨ id ∈ w.outside)
    ∧ (∀ earlier later, errands = earlier ++ later → ∀ id ∈ w.outside,
      (v.run earlier).stage.isMounted id = false)
    ∧ w.stage.unmountAll.boundaries = []
    ∧ ∀ id, w.stage.unmountAll.Holds id → id ∈ w.outside := by
  intro w
  have horderly := v.orderly_run errands
  have hunmounted := horderly.stage.boundaries_unmountAll
  refine ⟨fun id b parent hb hparent => ?_, fun id b c hb hc => ?_, horderly.holds, ?_, hunmounted,
    fun id hid => ?_⟩
  · obtain ⟨b', hb', hmem⟩ := horderly.stage.listed id _ parent (place?_of_boundary? hb) hparent
    refine ⟨(horderly.stage.child parent b' id hb' hmem).1, b', hb', ?_⟩
    exact List.count_eq_one_of_mem (horderly.stage.nodup parent b' hb') hmem
  · obtain ⟨-, p, hp, hparent⟩ := horderly.stage.child id b c hb hc
    obtain ⟨b', hb', rfl⟩ := exists_boundary? hp
    exact ⟨b', hb', hparent⟩
  · rintro earlier later rfl id hid
    exact v.not_mounted_of_outside earlier later hid
  · have hkept := (horderly.of_keeps horderly.stage.keeps_unmountAll).1.holds id hid
    refine hkept.resolve_left fun hmounted => ?_
    obtain ⟨b, hb⟩ := exists_of_isMounted hmounted
    rw [boundary?] at hb
    have hb : IdMap.find? id w.stage.unmountAll.boundaries = some b := hb
    rw [hunmounted] at hb
    cases hb

/-- To mount a list with two items. -/
def listErrands : List Errand :=
  [.mount (.element "ul" [("children", .sequence [.element "li" [], .element "li" []])]) []]

/-- The view lists the list, and the list its items. -/
example : (standard.run listErrands).stage.children 1 = [2]
    ∧ (standard.run listErrands).stage.children 2 = [3, 4] := by
  constructor <;> cbv

end Interpreter

end BoundView
