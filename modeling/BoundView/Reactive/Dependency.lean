import BoundView.Pointer

/-!
# What is read and what is changed

A dependency is a node of a model that was read: shallow, where only the node itself was looked at,
or deep, where everything beneath it was.  A change is what one edit touched.  `Change.affects` says
which dependencies have to be read again after a change.
-/

namespace BoundView

abbrev ModelId := Nat

abbrev ObserverId := Nat

structure Dependency where
  model : ModelId
  path : Path
  deep : Bool
  deriving DecidableEq, Repr

namespace Dependency

/-- Shallow comes before deep. -/
def compareDepth : Bool → Bool → Ordering
  | false, true => .lt
  | true, false => .gt
  | _, _ => .eq

/-- By model, then by path, then by depth. -/
def compare (a b : Dependency) : Ordering :=
  ((Ord.compare a.model b.model).then (a.path.compare b.path)).then (compareDepth a.deep b.deep)

/-- Add to a sorted list without repetition. -/
def insert (d : Dependency) : List Dependency → List Dependency
  | [] => [d]
  | e :: rest =>
    match d.compare e with
    | .lt => d :: e :: rest
    | .eq => e :: rest
    | .gt => e :: insert d rest

/-- The sorted list of what was read, each once. -/
def collect (reads : List Dependency) : List Dependency :=
  reads.foldl (fun ds d => insert d ds) []

end Dependency

/-- What one edit touched. -/
structure Change where
  model : ModelId
  path : Path
  /-- The array of which all elements from a position on were moved. -/
  shifted : Option (Path × Nat)
  deriving DecidableEq, Repr

namespace Change

/-- Whether a path is that of the array or leads through one of its moved elements. -/
def moves (array : Path) (start : Nat) (path : Path) : Bool :=
  array.isPrefixOf path
    && match path.drop array.length with
      | [] => true
      | .index i :: _ => decide (start ≤ i)
      | .field _ :: _ => false

def affects (c : Change) (d : Dependency) : Bool :=
  d.model == c.model
    -- At or below what was set, above it for a deep reader, or among what moved.
    && (c.path.isPrefixOf d.path
      || d.deep && d.path.isPrefixOf c.path
      || match c.shifted with
        | some (array, start) => moves array start d.path
        | none => false)

end Change

end BoundView
