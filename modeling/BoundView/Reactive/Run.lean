import BoundView.Reactive.Observers

/-!
# Evaluations

What observers do is a tree of actions.  An action belongs to the innermost evaluation around it:
`run` gives what is read there, apart from what is read inside an evaluation or an untracked part
further in.
-/

namespace BoundView

inductive Action where
  | record (d : Dependency)
  | notify (c : Change)
  /-- The evaluation of an observer. -/
  | track (observer : ObserverId) (actions : List Action)
  /-- A part whose reads go nowhere. -/
  | untracked (actions : List Action)

namespace Action

mutual

/-- What an action reads, and the observers after it. -/
def run (o : Observers) : Action → List Dependency × Observers
  | .record d => ([d], o)
  | .notify c => ([], (o.notify c).2)
  | .track observer actions =>
    let (reads, o) := runAll o actions
    ([], o.settle observer reads)
  | .untracked actions => ([], (runAll o actions).2)

def runAll (o : Observers) : List Action → List Dependency × Observers
  | [] => ([], o)
  | action :: rest =>
    let (first, o) := run o action
    let (others, o) := runAll o rest
    (first ++ others, o)

end

/-- Actions outside of any evaluation. -/
def perform (o : Observers) (actions : List Action) : Observers :=
  (runAll o actions).2

end Action

end BoundView
