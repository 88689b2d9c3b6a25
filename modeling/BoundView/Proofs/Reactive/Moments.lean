import BoundView.Proofs.Reactive.Subscriptions
import BoundView.Reactive.Run

/-!
# Changes during and after an evaluation

However evaluations are nested, what happens to the observers is a sequence of moments: a change is
announced, or an evaluation ends and its observer is subscribed to what it read.  Main statement:
a change in the course of an evaluation is forgotten at its end, even if the evaluation had read
before what was changed, so that no update is lost only where there is none; from its end on no
change is lost, until the next evaluation of the same observer ends.
-/

namespace BoundView

/-- What happens to the observers at one time. -/
inductive Moment where
  | changed (c : Change)
  /-- The evaluation of an observer has ended, which read this by itself. -/
  | settled (observer : ObserverId) (reads : List Dependency)

namespace Action

/-- What an action by itself reads, for the evaluation around it. -/
def reads : Action → List Dependency
  | .record d => [d]
  | _ => []

mutual

/-- The moments of an action, in their order; an evaluation counts when it ends. -/
def moments : Action → List Moment
  | .record _ => []
  | .notify c => [.changed c]
  | .track observer actions =>
    momentsAll actions ++ [.settled observer (actions.flatMap reads)]
  | .untracked actions => momentsAll actions

def momentsAll : List Action → List Moment
  | [] => []
  | action :: rest => moments action ++ momentsAll rest

end

end Action

namespace Observers

variable {o : Observers} {observer other : ObserverId} {c : Change} {d : Dependency}
  {reads : List Dependency}

/-- The observers after a moment. -/
def after (o : Observers) : Moment → Observers
  | .changed c => (o.notify c).2
  | .settled observer reads => o.settle observer reads

def afterAll (o : Observers) (moments : List Moment) : Observers :=
  moments.foldl after o

theorem afterAll_append (o : Observers) (ms ns : List Moment) :
    o.afterAll (ms ++ ns) = (o.afterAll ms).afterAll ns :=
  List.foldl_append

end Observers

/-! ## Actions are their moments -/

namespace Action

open Observers (afterAll_append)

mutual

theorem run_eq (o : Observers) :
    ∀ action, run o action = (action.reads, o.afterAll action.moments)
  | .record _ | .notify _ => by simp [run, reads, moments, Observers.afterAll, Observers.after]
  | .track observer actions => by
    rw [run, runAll_eq o actions, moments, afterAll_append]
    rfl
  | .untracked actions => by
    rw [run, runAll_eq o actions, moments]
    rfl

/-- What actions read does not hang on the observers, and the observers go through the moments. -/
theorem runAll_eq (o : Observers) :
    ∀ actions, runAll o actions = (actions.flatMap reads, o.afterAll (momentsAll actions))
  | [] => by
    rw [runAll, momentsAll]
    rfl
  | action :: rest => by
    rw [runAll, run_eq o action]
    dsimp only
    rw [runAll_eq _ rest, momentsAll, afterAll_append]
    rfl

end

theorem perform_eq (o : Observers) (actions : List Action) :
    perform o actions = o.afterAll (momentsAll actions) := by
  rw [perform, runAll_eq]

end Action

/-! ## One moment -/

namespace Observers

variable {o : Observers} {observer : ObserverId} {c : Change} {m : Moment}
  {reads : List Dependency}

/-- Each observer has one entry. -/
def Sorted (o : Observers) : Prop :=
  IdMap.Sorted o.subscriptions

theorem sorted_after (h : o.Sorted) : (o.after m).Sorted := by
  cases m with
  | changed c => exact h
  | settled observer reads =>
    show IdMap.Sorted (if reads.isEmpty then _ else _)
    split
    · exact IdMap.sorted_erase h
    · exact IdMap.sorted_insert h

theorem sorted_afterAll {moments : List Moment} (h : o.Sorted) : (o.afterAll moments).Sorted := by
  induction moments generalizing o with
  | nil => exact h
  | cons m rest ih => exact ih (sorted_after h)

theorem mem_affectedBy_iff (h : o.Sorted) :
    observer ∈ o.affectedBy c ↔ ∃ d ∈ o.dependencies observer, c.affects d = true := by
  constructor
  · intro haffected
    obtain ⟨⟨id, ds⟩, hentry, rfl⟩ := List.mem_map.1 haffected
    obtain ⟨hentry, hany⟩ := List.mem_filter.1 hentry
    obtain ⟨d, hd, haffects⟩ := List.any_eq_true.1 hany
    have hfind : IdMap.find? id o.subscriptions = some ds := IdMap.find?_of_mem h hentry
    refine ⟨d, ?_, haffects⟩
    rw [dependencies, hfind]
    exact hd
  · rintro ⟨d, hd, haffects⟩
    cases hfind : IdMap.find? observer o.subscriptions with
    | none =>
      rw [dependencies, hfind] at hd
      exact absurd hd List.not_mem_nil
    | some ds =>
      rw [dependencies, hfind] at hd
      have hentry := IdMap.mem_of_find? hfind
      have hany : ds.any c.affects = true := List.any_eq_true.2 ⟨d, hd, haffects⟩
      exact List.mem_map.2 ⟨(observer, ds), List.mem_filter.2 ⟨hentry, hany⟩, rfl⟩

/-! ## From the end of an evaluation on -/

/-- The observer depends on these reads, and is marked exactly if one of these changes affects one
of them. -/
structure Awaits (o : Observers) (observer : ObserverId) (reads : List Dependency)
    (changes : List Change) : Prop where
  depends : ∀ d, d ∈ o.dependencies observer ↔ d ∈ reads
  marked : observer ∈ o.pending ↔ ∃ c ∈ changes, ∃ d ∈ reads, c.affects d = true

/-- When an evaluation ends its observer is not marked, whatever was changed in its course. -/
theorem awaits_settle : (o.settle observer reads).Awaits observer reads [] where
  depends d := mem_dependencies_settle
  marked := by
    rw [pending_settle]
    exact iff_of_false (fun h => h.2 rfl) fun ⟨_, hc, _⟩ => List.not_mem_nil hc

theorem Awaits.notify {changes : List Change} (h : o.Awaits observer reads changes)
    (ho : o.Sorted) : (o.notify c).2.Awaits observer reads (changes ++ [c]) where
  depends := h.depends
  marked := by
    have hnow : observer ∈ o.affectedBy c ↔ ∃ d ∈ reads, c.affects d = true := by
      rw [mem_affectedBy_iff ho]
      simp only [h.depends]
    rw [mem_pending_notify_iff, hnow, h.marked, or_comm]
    simp only [List.mem_append, List.mem_singleton, or_and_right, exists_or, exists_eq_left]

theorem Awaits.settle_of_ne {changes : List Change} {other : ObserverId} {reads' : List Dependency}
    (h : o.Awaits observer reads changes) (hne : observer ≠ other) :
    (o.settle other reads').Awaits observer reads changes where
  depends d := by
    rw [dependencies_settle_of_ne hne]
    exact h.depends d
  marked := by
    rw [pending_settle, and_iff_left hne]
    exact h.marked

end Observers

/-- The changes among moments. -/
def Moment.change? : Moment → Option Change
  | .changed c => some c
  | .settled _ _ => none

namespace Observers

/-- What an observer awaits is kept until its next evaluation ends, whatever else happens. -/
theorem Awaits.afterAll {o : Observers} {observer : ObserverId} {reads : List Dependency}
    {changes : List Change} {moments : List Moment} (h : o.Awaits observer reads changes)
    (ho : o.Sorted) (hlast : ∀ reads', .settled observer reads' ∉ moments) :
    (o.afterAll moments).Awaits observer reads (changes ++ moments.filterMap Moment.change?) := by
  induction moments generalizing o changes with
  | nil => exact (List.append_nil changes).symm ▸ h
  | cons m rest ih =>
    have hrest : ∀ reads', .settled observer reads' ∉ rest :=
      fun reads' hmem => hlast reads' (List.mem_cons_of_mem m hmem)
    cases m with
    | changed c =>
      have hnext := ih (h.notify ho) (sorted_after (m := .changed c) ho) hrest
      rw [List.append_assoc] at hnext
      exact hnext
    | settled other reads' =>
      have hne : observer ≠ other := by
        rintro rfl
        exact hlast reads' List.mem_cons_self
      exact ih (h.settle_of_ne hne) (sorted_after (m := .settled other reads') ho) hrest

end Observers

/-! ## Main statement -/

namespace Action

/-- Whenever an evaluation of the observer with these actions reads something, and a change in the
rest of its course affects that, the observer is marked when the evaluation ends. -/
def KeepsUpdates (o : Observers) (observer : ObserverId) (actions : List Action) : Prop :=
  ∀ before d after c, actions = before ++ .record d :: after → .changed c ∈ momentsAll after →
    c.affects d = true → (perform o [.track observer actions]).isPending observer = true

/-- No change in the course of these actions affects what they have read by themselves before. -/
def Undisturbed (actions : List Action) : Prop :=
  ∀ before d after c, actions = before ++ .record d :: after → .changed c ∈ momentsAll after →
    c.affects d = false

variable {o : Observers} {observer : ObserverId} {actions : List Action}

theorem perform_track : perform o [.track observer actions] =
    (o.afterAll (momentsAll actions)).settle observer (actions.flatMap reads) := by
  rw [perform_eq, momentsAll, momentsAll, moments, List.append_nil, Observers.afterAll_append]
  rfl

theorem isPending_track : (perform o [.track observer actions]).isPending observer = false := by
  rw [perform_track, Observers.isPending, Bool.eq_false_iff]
  intro hcontains
  have hpending := List.contains_iff_mem.1 hcontains
  exact (Observers.pending_settle.1 hpending).2 rfl

/-- An evaluation keeps its updates only if there is nothing to keep: at its end the mark of its
observer is taken away, whatever was changed in its course.  From that end on, until the next
evaluation of the same observer ends, nothing is lost: the observer depends on just what the
evaluation read by itself, and is marked if and only if a change since then affects something of
it. -/
theorem keepsUpdates_iff {o : Observers} (ho : o.Sorted) :
    (∀ observer actions, KeepsUpdates o observer actions ↔ Undisturbed actions)
      ∧ ∀ forest before observer reads since,
        momentsAll forest = before ++ .settled observer reads :: since →
        (∀ reads', .settled observer reads' ∉ since) →
        (perform o forest).Awaits observer reads (since.filterMap Moment.change?) := by
  constructor
  · intro observer actions
    constructor
    · intro hkeeps before d after c hactions hchanged
      refine Bool.eq_false_iff.2 fun haffects => ?_
      have hpending := hkeeps before d after c hactions hchanged haffects
      rw [isPending_track] at hpending
      contradiction
    · intro hundisturbed before d after c hactions hchanged haffects
      rw [hundisturbed before d after c hactions hchanged] at haffects
      contradiction
  · intro forest before observer reads since hmoments hlast
    rw [perform_eq, hmoments, Observers.afterAll_append]
    have hbefore : (o.afterAll before).Sorted := Observers.sorted_afterAll ho
    have hsettled := Observers.sorted_after (m := .settled observer reads) hbefore
    exact Observers.awaits_settle.afterAll hsettled hlast

private def seen (name : String) : Dependency :=
  ⟨1, [.field name], false⟩

private def edited (name : String) : Change :=
  ⟨1, [.field name], none⟩

/-- While the second observer is evaluated the third one is, and then two members are changed: the
third observer, which read one of them, is marked.  An evaluation of the second one in which only
what the third one read is changed keeps its updates. -/
theorem keepsUpdates_of_nested :
    let nested := .track 3 [.record (seen "b")]
    Observers.empty.Sorted
      ∧ KeepsUpdates .empty 2 [.record (seen "a"), nested, .notify (edited "b")]
      ∧ (perform .empty [.track 2 [.record (seen "a"), nested, .notify (edited "a"),
          .notify (edited "b")]]).isPending 3 = true := by
  intro nested
  have hsorted : Observers.empty.Sorted := List.Pairwise.nil
  obtain ⟨hiff, hawaits⟩ := keepsUpdates_iff hsorted
  refine ⟨hsorted, (hiff 2 _).2 ?_, ?_⟩
  · intro before d after c hactions hchanged
    -- Only the first action is a read, and what comes after it changes the other member.
    rcases before with _ | ⟨first, _ | ⟨second, _ | ⟨third, before⟩⟩⟩
    · obtain ⟨rfl, rfl⟩ : seen "a" = d ∧ [nested, .notify (edited "b")] = after := by
        simpa using hactions
      obtain rfl : c = edited "b" := by simpa [nested, momentsAll, moments] using hchanged
      decide
    · simp [nested] at hactions
    · simp at hactions
    · simp at hactions
  · have hthird := hawaits [.track 2 [.record (seen "a"), nested, .notify (edited "a"),
      .notify (edited "b")]] [] 3 [seen "b"]
      [.changed (edited "a"), .changed (edited "b"), .settled 2 [seen "a"]] rfl (by simp)
    have hmarked := hthird.marked.2
      ⟨edited "b", by simp [Moment.change?], seen "b", List.mem_singleton_self _, by decide⟩
    exact List.contains_iff_mem.2 hmarked

/-- A member is read and then changed in the course of the same evaluation, and the observer is not
marked when it ends. -/
theorem not_keepsUpdates_of_changed_within :
    ¬ KeepsUpdates .empty 2 [.record (seen "a"), .notify (edited "a")] := by
  intro hkeeps
  have hpending := hkeeps [] (seen "a") [.notify (edited "a")] (edited "a") rfl
    List.mem_cons_self (by decide)
  exact absurd hpending (by decide)

end Action

end BoundView
