import BoundView.Proofs.View.World

/-!
# Marks in order

A change marks observers by their numbers, and whatever is rendered or taken away only takes marks
away.  Main statement: between any two calls the marks of a world ascend.
-/

namespace BoundView

open Stage

namespace Observers

theorem sorted_insertId {id : Nat} {ids : List Nat} (h : ids.Pairwise (· < ·)) :
    (insertId id ids).Pairwise (· < ·) := by
  induction ids with
  | nil => exact List.pairwise_singleton _ _
  | cons first rest ih =>
    obtain ⟨hfirst, hrest⟩ := List.pairwise_cons.1 h
    rw [insertId]
    split
    · rename_i hlt
      refine List.pairwise_cons.2 ⟨fun other hother => ?_, h⟩
      rcases List.mem_cons.1 hother with rfl | hother
      · exact hlt
      · exact Nat.lt_trans hlt (hfirst other hother)
    split
    · exact h
    · refine List.pairwise_cons.2 ⟨fun other hother => ?_, ih hrest⟩
      rcases mem_insertId.1 hother with rfl | hother
      · omega
      · exact hfirst other hother

theorem sorted_notify {o : Observers} (h : o.pending.Pairwise (· < ·)) (c : Change) :
    (o.notify c).2.pending.Pairwise (· < ·) := by
  -- The fold adds the affected ones to those that are marked already.
  suffices hfold : ∀ ids marked : List Nat, marked.Pairwise (· < ·) →
      (ids.foldl (fun ids id => insertId id ids) marked).Pairwise (· < ·) from hfold _ _ h
  intro ids
  induction ids with
  | nil => exact fun _ hmarked => hmarked
  | cons first rest ih => exact fun marked hmarked => ih _ (sorted_insertId hmarked)

end Observers

namespace Recorded

theorem pending_rerenderAll (v : Interpreter) (ids : List BoundaryId) {s : Stage} (hs : s.Orderly) :
    ((rerenderAll v ids).run s none).stage.live.observers.pending.Sublist
      s.live.observers.pending :=
  rerenderAll_induction (P := fun s' => s'.live.observers.pending.Sublist s.live.observers.pending)
    v hs (.refl _) fun _ _ _ _ hs₁ hb hpending => (rerender_renewed v hs₁ hb).pending.trans hpending

end Recorded

namespace World

variable {v : Interpreter} {w : World}

theorem pending_perform {α : Type} (h : w.Orderly) {p : Recorded α} (hp : p.Grows) :
    (w.perform p.run).stage.live.observers.pending.Sublist w.stage.live.observers.pending := by
  obtain ⟨ids, hgrown⟩ := hp w.stage none h.fits
  exact hgrown.tends.pending

theorem sorted_mount (h : w.Orderly) (hsorted : w.stage.live.observers.pending.Pairwise (· < ·))
    (node : ViewNode) (ctx : Context) :
    (w.perform (v.mount node ctx)).stage.live.observers.pending.Pairwise (· < ·) := by
  obtain ⟨stage, hperform, -, htends⟩ := h.perform_mount (v := v) node ctx
  rw [hperform]
  exact hsorted.sublist htends.pending

theorem sorted_after (h : w.Orderly) (hsorted : w.stage.live.observers.pending.Pairwise (· < ·))
    (errand : Errand) : (w.after v errand).stage.live.observers.pending.Pairwise (· < ·) := by
  cases errand with
  | create schema type initial =>
    unfold World.after
    dsimp only
    split
    · rename_i heq
      have hobservers := congrArg Observers.pending (observers_of_create heq)
      exact hobservers.symm ▸ hsorted
    · exact hsorted
  | patch r patch =>
    unfold World.after
    dsimp only
    split
    · rename_i heq
      have hobservers := congrArg Observers.pending (Live.apply_eq_ok heq).2
      exact hobservers.symm ▸ Observers.sorted_notify hsorted _
    · exact hsorted
  | observe => exact hsorted
  | track observer reading =>
    unfold World.after
    dsimp only
    split
    · exact hsorted.sublist List.filter_sublist
    · exact hsorted
  | mount node ctx => exact sorted_mount h hsorted node ctx
  | renderView document ctx => exact sorted_mount h hsorted document.shown ctx
  | resolve node ctx =>
    have hresolve := pending_perform h (Recorded.resolve_grows v node ctx)
    rw [Recorded.run_resolve] at hresolve
    exact hsorted.sublist hresolve
  | flush =>
    have hflush := Recorded.pending_rerenderAll v w.stage.live.observers.pending
      (Recorded.orderly_unmarked h.stage)
    rw [Recorded.run_rerenderAll] at hflush
    exact List.Pairwise.nil.sublist hflush
  | unmount id =>
    have hdrop := pending_drop (w.stage.struck id) [id]
    rw [live_struck] at hdrop
    exact hsorted.sublist hdrop
  | unmountAll => exact hsorted.sublist (pending_drop _ _)

end World

theorem Interpreter.sorted_run (v : Interpreter) (errands : List Errand) :
    (v.run errands).stage.live.observers.pending.Pairwise (· < ·) := by
  induction errands using List.reverseRecOn with
  | nil => exact .nil
  | append_singleton errands errand ih =>
    rw [run_concat]
    exact World.sorted_after (v.orderly_run errands) ih errand

end BoundView
