import BoundView.Model.Patch
import BoundView.Schema.Compile

/-!
# Everything that can go wrong
-/

namespace BoundView

/-- What goes wrong with an action on a mounted view. -/
inductive ActionError where
  /-- The target is no tag and property, joined by a point. -/
  | badTarget (target : String)
  | noElement (tag : String)
  | noHandler (tag prop : String)
  deriving DecidableEq, Repr

def ActionError.message : ActionError → String
  | .badTarget target => Text.tick target ++ " is not of the form TAG.PROP"
  | .noElement tag => "no " ++ Text.tick tag ++ " element is rendered"
  | .noHandler tag prop => Text.tick tag ++ " has no " ++ Text.tick prop ++ " event handler"

inductive Error where
  | compile (e : CompileError)
  | validation (e : ValidationError)
  | patch (e : PatchError)
  | expr (e : Expr.Error)
  | document (p : Document.Problem)
  | action (e : ActionError)
  deriving DecidableEq

def Error.message : Error → String
  | .compile e => e.message
  | .validation e => e.message
  | .patch e => e.message
  | .expr e => e.message
  | .document p => p.message
  | .action e => e.message

end BoundView
