import BoundView.IdMap
import BoundView.Reactive.Dependency

/-!
# Observers

An observer is subscribed to what it read when it was last evaluated.  A change marks the observers
that it affects as pending; the marks are a set, so an observer is pending once however many changes
affect it.  Models and observers are numbered from one, in the order in which they are created.
-/

namespace BoundView

structure Observers where
  /-- The number that was given last. -/
  lastId : Nat
  /-- What each observer depends on, sorted; no observer is kept that depends on nothing. -/
  subscriptions : IdMap (List Dependency)
  /-- The observers that a change affected, in their order. -/
  pending : List ObserverId
  deriving DecidableEq, Repr

namespace Observers

def empty : Observers :=
  ⟨0, [], []⟩

/-- A new number. -/
def fresh (o : Observers) : Nat × Observers :=
  (o.lastId + 1, { o with lastId := o.lastId + 1 })

/-- Add to a sorted list of numbers without repetition. -/
def insertId (id : Nat) : List Nat → List Nat
  | [] => [id]
  | other :: rest =>
    if id < other then id :: other :: rest
    else if id = other then other :: rest
    else other :: insertId id rest

/-- The evaluation of an observer has ended, and this is what it read. -/
def settle (o : Observers) (observer : ObserverId) (reads : List Dependency) : Observers :=
  { o with
    pending := o.pending.filter (· ≠ observer)
    subscriptions :=
      -- Former subscriptions are given up in either case.
      if reads.isEmpty then IdMap.erase observer o.subscriptions
      else IdMap.insert observer (Dependency.collect reads) o.subscriptions }

/-- The observers that depend on what was changed. -/
def affectedBy (o : Observers) (c : Change) : List ObserverId :=
  (o.subscriptions.filter fun entry => entry.2.any c.affects).map Prod.fst

/-- Mark the affected observers, and count those that were not marked before. -/
def notify (o : Observers) (c : Change) : Nat × Observers :=
  let affected := o.affectedBy c
  ((affected.filter fun id => !o.pending.contains id).length,
    { o with pending := affected.foldl (fun ids id => insertId id ids) o.pending })

/-- Take all marks away. -/
def takePending (o : Observers) : List ObserverId × Observers :=
  (o.pending, { o with pending := [] })

def isPending (o : Observers) (observer : ObserverId) : Bool :=
  o.pending.contains observer

/-- Forget an observer's subscriptions and mark. -/
def unsubscribe (o : Observers) (observer : ObserverId) : Observers :=
  { o with
    subscriptions := IdMap.erase observer o.subscriptions
    pending := o.pending.filter (· ≠ observer) }

def dependencies (o : Observers) (observer : ObserverId) : List Dependency :=
  (IdMap.find? observer o.subscriptions).getD []

def subscriberCount (o : Observers) : Nat :=
  o.subscriptions.length

end Observers

end BoundView
