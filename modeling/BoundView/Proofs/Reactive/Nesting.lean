import BoundView.Proofs.Reactive.Moments

/-!
# Evaluations inside evaluations

A tracker keeps the evaluations that are running on a stack.  What is read goes to the innermost
one; when it ends, its observer is subscribed to what has gone there, and the stack is as before.
Main statement: whatever is called in whatever state, an observer that was evaluated depends on just
what it read by itself in the evaluation that ended last, and every other observer on what it did
before.
-/

namespace BoundView

/-- An evaluation that is running, with what it has read so far; without an observer, the reads of
an untracked part, which go nowhere. -/
structure Evaluation where
  observer? : Option ObserverId
  reads : List Dependency
  deriving DecidableEq

/-- The observers, and the evaluations that are running, the innermost first. -/
structure Tracker where
  observers : Observers
  running : List Evaluation

namespace Tracker

def begin (r : Tracker) (observer? : Option ObserverId) : Tracker :=
  { r with running := ⟨observer?, []⟩ :: r.running }

/-- Note what is read for the innermost evaluation. -/
def record (r : Tracker) (d : Dependency) : Tracker :=
  match r.running with
  | [] => r
  | e :: outer =>
    if e.observer?.isSome then
      { r with running := { e with reads := Dependency.insert d e.reads } :: outer }
    else r

def notify (r : Tracker) (c : Change) : Tracker :=
  { r with observers := (r.observers.notify c).2 }

/-- The innermost evaluation, the one of an observer, has ended. -/
def finish (r : Tracker) (observer : ObserverId) : Tracker :=
  let ended := r.running.head?.getD ⟨none, []⟩
  let o := r.observers
  { observers :=
      { o with
        pending := o.pending.filter (· ≠ observer)
        subscriptions :=
          if ended.reads.isEmpty then IdMap.erase observer o.subscriptions
          else IdMap.insert observer ended.reads o.subscriptions }
    running := r.running.tail }

/-- The innermost evaluation, an untracked part, has ended. -/
def leave (r : Tracker) : Tracker :=
  { r with running := r.running.tail }

mutual

/-- Take an action. -/
def execute (r : Tracker) : Action → Tracker
  | .record d => r.record d
  | .notify c => r.notify c
  | .track observer actions => ((r.begin (some observer)).executeAll actions).finish observer
  | .untracked actions => ((r.begin none).executeAll actions).leave

def executeAll (r : Tracker) : List Action → Tracker
  | [] => r
  | action :: rest => (r.execute action).executeAll rest

end

end Tracker

/-! ## The stack -/

namespace Evaluation

variable {running : List Evaluation} {first second : List Dependency}

/-- The running evaluations after these reads: the innermost keeps them, if it has an observer. -/
def hear (running : List Evaluation) (reads : List Dependency) : List Evaluation :=
  match running with
  | [] => []
  | e :: outer =>
    if e.observer?.isSome then
      { e with reads := reads.foldl (fun ds d => Dependency.insert d ds) e.reads } :: outer
    else e :: outer

theorem hear_nil : hear running [] = running := by
  cases running with
  | nil => rfl
  | cons e outer => exact ite_self _

theorem hear_append : hear running (first ++ second) = hear (hear running first) second := by
  cases running with
  | nil => rfl
  | cons e outer =>
    unfold hear
    by_cases h : e.observer?.isSome = true
    · simp only [if_pos h, List.foldl_append]
    · simp only [if_neg h]

end Evaluation

namespace Dependency

theorem collect_eq_nil_iff {reads : List Dependency} : collect reads = [] ↔ reads = [] := by
  simp only [List.eq_nil_iff_forall_not_mem, mem_collect]

end Dependency

namespace Tracker

open Evaluation (hear hear_nil hear_append)

theorem record_eq (r : Tracker) (d : Dependency) :
    r.record d = ⟨r.observers, hear r.running [d]⟩ := by
  obtain ⟨o, running⟩ := r
  unfold record hear
  cases running with
  | nil => rfl
  | cons e outer =>
    dsimp only
    split
    · rfl
    · rfl

/-- When an evaluation ends, its observer is subscribed to what was read in it. -/
theorem finish_eq (o : Observers) (running : List Evaluation) (observer : ObserverId)
    (reads : List Dependency) :
    (Tracker.mk o (hear (⟨some observer, []⟩ :: running) reads)).finish observer
      = ⟨o.settle observer reads, running⟩ := by
  have hempty : (Dependency.collect reads).isEmpty = reads.isEmpty := by
    rw [Bool.eq_iff_iff, List.isEmpty_iff, List.isEmpty_iff, Dependency.collect_eq_nil_iff]
  show Tracker.mk { o with
      pending := o.pending.filter (· ≠ observer)
      subscriptions :=
        if (Dependency.collect reads).isEmpty then IdMap.erase observer o.subscriptions
        else IdMap.insert observer (Dependency.collect reads) o.subscriptions } running = _
  rw [hempty]
  rfl

theorem leave_eq (o : Observers) (running : List Evaluation) (reads : List Dependency) :
    (Tracker.mk o (hear (⟨none, []⟩ :: running) reads)).leave = ⟨o, running⟩ :=
  rfl

mutual

/-- On the stack an action does what it does without one, and leaves what it reads by itself to the
innermost evaluation. -/
theorem execute_eq (r : Tracker) : ∀ action,
    r.execute action = ⟨(Action.run r.observers action).2, hear r.running action.reads⟩
  | .record d => by
    rw [execute, record_eq, Action.run]
    rfl
  | .notify c => by
    rw [execute, Action.run]
    exact congrArg (Tracker.mk _) hear_nil.symm
  | .track observer actions => by
    rw [execute, executeAll_eq _ actions, Action.run, Action.runAll_eq, Action.runAll_eq]
    exact (finish_eq _ _ _ _).trans (congrArg (Tracker.mk _) hear_nil.symm)
  | .untracked actions => by
    rw [execute, executeAll_eq _ actions, Action.run]
    exact (leave_eq _ _ _).trans (congrArg (Tracker.mk _) hear_nil.symm)

theorem executeAll_eq (r : Tracker) : ∀ actions,
    r.executeAll actions
      = ⟨(Action.runAll r.observers actions).2, hear r.running (actions.flatMap Action.reads)⟩
  | [] => by
    rw [executeAll, Action.runAll, List.flatMap_nil, hear_nil]
  | action :: rest => by
    rw [executeAll, executeAll_eq _ rest, execute_eq r action, List.flatMap_cons, hear_append,
      Action.runAll]

end

end Tracker

/-! ## The evaluation that ends last -/

namespace Action

mutual

/-- The observers that are evaluated in an action. -/
def evaluated : Action → List ObserverId
  | .record _ => []
  | .notify _ => []
  | .track observer actions => observer :: evaluatedAll actions
  | .untracked actions => evaluatedAll actions

def evaluatedAll : List Action → List ObserverId
  | [] => []
  | action :: rest => evaluated action ++ evaluatedAll rest

end

mutual

/-- What an observer reads by itself in the evaluation of it that ends last, if there is one: the
outermost of nested ones, and of several in a row the last. -/
def lastReads? (observer : ObserverId) : Action → Option (List Dependency)
  | .record _ => none
  | .notify _ => none
  | .track other actions =>
    if other = observer then some (actions.flatMap reads) else lastReadsAll? observer actions
  | .untracked actions => lastReadsAll? observer actions

def lastReadsAll? (observer : ObserverId) : List Action → Option (List Dependency)
  | [] => none
  | action :: rest => (lastReadsAll? observer rest).or (lastReads? observer action)

end

mutual

theorem lastReads?_eq_none_iff {observer : ObserverId} :
    ∀ action, lastReads? observer action = none ↔ observer ∉ evaluated action
  | .record _ | .notify _ => by simp [lastReads?, evaluated]
  | .track other actions => by
    rw [lastReads?, evaluated, List.mem_cons, not_or, ← lastReadsAll?_eq_none_iff actions]
    by_cases h : other = observer
    · simp [h]
    · simp [h, Ne.symm h]
  | .untracked actions => by
    rw [lastReads?, evaluated]
    exact lastReadsAll?_eq_none_iff actions

/-- An observer has a last evaluation just if it has one at all. -/
theorem lastReadsAll?_eq_none_iff {observer : ObserverId} :
    ∀ actions, lastReadsAll? observer actions = none ↔ observer ∉ evaluatedAll actions
  | [] => by simp [lastReadsAll?, evaluatedAll]
  | action :: rest => by
    rw [lastReadsAll?, evaluatedAll, List.mem_append, not_or, Option.or_eq_none_iff,
      lastReadsAll?_eq_none_iff rest, lastReads?_eq_none_iff action, and_comm]

end

end Action

/-- What an observer read, at the moment when its evaluation ended. -/
def Moment.readsOf? (observer : ObserverId) : Moment → Option (List Dependency)
  | .changed _ => none
  | .settled other reads => if other = observer then some reads else none

namespace Action

variable {observer : ObserverId}

/-- What is read in the evaluation that ended last among these moments. -/
def lastOf? (observer : ObserverId) (moments : List Moment) : Option (List Dependency) :=
  (moments.filterMap (Moment.readsOf? observer)).getLast?

theorem lastOf?_append (ms ns : List Moment) :
    lastOf? observer (ms ++ ns) = (lastOf? observer ns).or (lastOf? observer ms) := by
  rw [lastOf?, List.filterMap_append, List.getLast?_append]
  rfl

mutual

theorem lastReads?_eq : ∀ action, lastReads? observer action = lastOf? observer (moments action)
  | .record _ => by
    rw [lastReads?, moments]
    rfl
  | .notify c => by
    rw [lastReads?, moments]
    rfl
  | .track other actions => by
    rw [lastReads?, moments, lastOf?_append, lastReadsAll?_eq actions]
    by_cases h : other = observer
    · rw [if_pos h]
      simp [lastOf?, Moment.readsOf?, h]
    · rw [if_neg h]
      simp [lastOf?, Moment.readsOf?, h]
  | .untracked actions => by
    rw [lastReads?, moments, lastReadsAll?_eq actions]

/-- Of the moments of actions the last one of an observer counts. -/
theorem lastReadsAll?_eq :
    ∀ actions, lastReadsAll? observer actions = lastOf? observer (momentsAll actions)
  | [] => by
    rw [lastReadsAll?, momentsAll]
    rfl
  | action :: rest => by
    rw [lastReadsAll?, momentsAll, lastOf?_append, lastReadsAll?_eq rest, lastReads?_eq action]

end

end Action

/-! ## Subscriptions -/

namespace Observers

variable {o : Observers} {observer other : ObserverId} {m : Moment} {reads : List Dependency}

/-- What an observer is subscribed to; nothing, if there is no entry. -/
def subscription? (o : Observers) (observer : ObserverId) : Option (List Dependency) :=
  IdMap.find? observer o.subscriptions

/-- The entry of an observer that read this. -/
def subscriptionOf (reads : List Dependency) : Option (List Dependency) :=
  if reads.isEmpty then none else some (Dependency.collect reads)

theorem isSome_subscriptionOf : (subscriptionOf reads).isSome = true ↔ reads ≠ [] := by
  unfold subscriptionOf
  cases reads with
  | nil => exact iff_of_false Bool.false_ne_true (not_not_intro rfl)
  | cons d rest => exact iff_of_true rfl (List.cons_ne_nil d rest)

theorem mem_subscriptionOf {d : Dependency} : d ∈ (subscriptionOf reads).getD [] ↔ d ∈ reads := by
  unfold subscriptionOf
  cases reads with
  | nil => exact Iff.rfl
  | cons d' rest => exact Dependency.mem_collect

theorem subscription?_settle_self :
    (o.settle observer reads).subscription? observer = subscriptionOf reads := by
  unfold subscription? settle subscriptionOf
  dsimp only
  split
  · exact IdMap.find?_erase_self _ _
  · exact IdMap.find?_insert_self _ _ _

theorem subscription?_settle_of_ne (h : other ≠ observer) :
    (o.settle observer reads).subscription? other = o.subscription? other := by
  unfold subscription? settle
  dsimp only
  split
  · exact IdMap.find?_erase_of_ne _ h
  · exact IdMap.find?_insert_of_ne _ _ h

theorem subscription?_after : (o.after m).subscription? observer
    = ((m.readsOf? observer).map subscriptionOf).getD (o.subscription? observer) := by
  cases m with
  | changed c => rfl
  | settled other reads =>
    rw [Moment.readsOf?]
    by_cases h : other = observer
    · rw [if_pos h, h]
      exact subscription?_settle_self
    · rw [if_neg h]
      exact subscription?_settle_of_ne (Ne.symm h)

/-- After some moments the entry of an observer is that of its last evaluation. -/
theorem subscription?_afterAll (o : Observers) (moments : List Moment) :
    (o.afterAll moments).subscription? observer
      = ((Action.lastOf? observer moments).map subscriptionOf).getD (o.subscription? observer) := by
  induction moments generalizing o with
  | nil => rfl
  | cons m rest ih =>
    have hfirst : Action.lastOf? observer [m] = m.readsOf? observer := by
      rw [Action.lastOf?, List.filterMap_cons]
      cases m.readsOf? observer <;> rfl
    show ((o.after m).afterAll rest).subscription? observer = _
    rw [ih, subscription?_after, ← List.singleton_append, Action.lastOf?_append, hfirst]
    cases Action.lastOf? observer rest <;> rfl

theorem dependencies_eq : o.dependencies observer = (o.subscription? observer).getD [] :=
  rfl

end Observers

/-! ## Main statement -/

namespace Tracker

variable (r : Tracker) (action : Action) {observer : ObserverId}

theorem subscription?_execute : (r.execute action).observers.subscription? observer
    = ((action.lastReads? observer).map Observers.subscriptionOf).getD
      (r.observers.subscription? observer) := by
  rw [execute_eq, Action.run_eq, Observers.subscription?_afterAll, Action.lastReads?_eq]

/-- Whatever was running is running afterwards: an evaluation and an untracked part leave the stack
as it was, and a read reaches the innermost evaluation alone.  Each observer that was evaluated
depends on just what it read by itself in the evaluation that ended last, and has no entry if that
was nothing.  All other observers have the entries that they had. -/
theorem execute_exact :
    (r.execute action).running = Evaluation.hear r.running action.reads
      ∧ ((∀ d, action ≠ .record d) → (r.execute action).running = r.running)
      ∧ ∀ observer,
        (observer ∈ action.evaluated → ∃ reads, action.lastReads? observer = some reads
          ∧ (∀ d, d ∈ (r.execute action).observers.dependencies observer ↔ d ∈ reads)
          ∧ (((r.execute action).observers.subscription? observer).isSome = true ↔ reads ≠ []))
        ∧ (observer ∉ action.evaluated →
          (r.execute action).observers.subscription? observer
            = r.observers.subscription? observer) := by
  have hrunning : (r.execute action).running = Evaluation.hear r.running action.reads := by
    rw [execute_eq]
  refine ⟨hrunning, fun hrecord => ?_, fun observer => ⟨fun hmem => ?_, fun hnot => ?_⟩⟩
  · rw [hrunning]
    cases action with
    | record d => exact absurd rfl (hrecord d)
    | notify | track | untracked => exact Evaluation.hear_nil
  · obtain ⟨reads, hlast⟩ : ∃ reads, action.lastReads? observer = some reads := by
      rw [← Option.ne_none_iff_exists', ne_eq, Action.lastReads?_eq_none_iff]
      exact not_not_intro hmem
    have hentry : (r.execute action).observers.subscription? observer
        = Observers.subscriptionOf reads := by
      rw [subscription?_execute, hlast]
      rfl
    refine ⟨reads, hlast, fun d => ?_, ?_⟩
    · rw [Observers.dependencies_eq, hentry]
      exact Observers.mem_subscriptionOf
    · rw [hentry]
      exact Observers.isSome_subscriptionOf
  · rw [subscription?_execute, (Action.lastReads?_eq_none_iff action).2 hnot]
    rfl

/-- An observer evaluated inside its own evaluation keeps what the outer one read; what an untracked
part reads is lost, but not what is evaluated in it. -/
example :
    let field (name : String) : Dependency := ⟨1, [.field name], false⟩
    let r := execute ⟨.empty, [⟨some 7, []⟩]⟩ (.track 2 [.record (field "a"),
      .track 2 [.record (field "b")],
      .untracked [.record (field "c"), .track 3 [.record (field "d")]]])
    r.observers.dependencies 2 = [field "a"] ∧ r.observers.dependencies 3 = [field "d"]
      ∧ r.running = [⟨some 7, []⟩] := by
  decide

end Tracker

end BoundView
