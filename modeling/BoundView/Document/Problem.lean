import BoundView.Json.Fault
import BoundView.Json.Found

/-!
# What is wrong with a document, and where

A document is read as a record of a known shape.  A problem names the place, as the path of members
and positions from the root, and the reason.
-/

namespace BoundView.Document

/-- A step into a document. -/
inductive Step where
  | member (name : String)
  | index (i : Nat)
  /-- A member without a readable key. -/
  | unnamed
  deriving DecidableEq, Repr

inductive Reason where
  | fault (f : Json.Fault)
  | wrongKind (found : Json.Found) (expected : String)
  | wrongLength (length : Nat) (expected : String)
  | missingField (name : String)
  | duplicateField (name : String)
  | unknownName (name : String) (known : List String)
  /-- A map where the name of a choice should be its only key. -/
  | notOneKey
  /-- A property of a kind that needs another member. -/
  | incomplete (kind member : String)
  deriving DecidableEq

structure Problem where
  path : List Step
  reason : Reason
  deriving DecidableEq

/-- A problem further in, seen from outside the step. -/
def Problem.under (step : Step) (p : Problem) : Problem :=
  { p with path := step :: p.path }

/-- A problem of the value itself. -/
def Problem.here (reason : Reason) : Problem :=
  ⟨[], reason⟩

/-- What is wrong inside a member or element, placed there. -/
def under {α : Type} (step : Step) (result : Except Problem α) : Except Problem α :=
  result.mapError (Problem.under step)

def Reason.message : Reason → String
  | .fault f => f.message
  | .wrongKind found expected => "invalid type: " ++ found.describe ++ ", expected " ++ expected
  | .wrongLength n expected => "invalid length " ++ toString n ++ ", expected " ++ expected
  | .missingField name => "missing field " ++ Text.tick name
  | .duplicateField name => "duplicate field " ++ Text.tick name
  | .unknownName name known =>
    "unknown variant " ++ Text.tick name ++ ", expected one of "
      ++ String.intercalate ", " (known.map Text.tick)
  | .notOneKey => "invalid value: map, expected map with a single key"
  | .incomplete kind member => kind ++ " property is missing " ++ Text.tick member

/-- Members are joined by points, positions stand in brackets; the root is a point. -/
def pathText : List Step → String
  | [] => "."
  | first :: rest => write first ++ String.join (rest.map joined)
where
  write : Step → String
    | .member name => name
    | .index i => "[" ++ toString i ++ "]"
    | .unnamed => "?"
  joined : Step → String
    | .index i => write (.index i)
    | step => "." ++ write step

def Problem.message (p : Problem) : String :=
  "at JSON path " ++ pathText p.path ++ " → " ++ p.reason.message

end BoundView.Document
