import BoundView.Error
import BoundView.View.Interpreter

/-!
# Event handlers

A handler evaluates its expression with the event under `$event`.  The value has to be a list of a
target, an operation, a path and perhaps a value: the one patch that the handler applies.
-/

namespace BoundView.EventHandler

open Reading (Fallible lift)

/-- What a value asks for: a target, and what to do there. -/
def requestOf (result : Value) : Fallible (ModelRef × Patch) := do
  match result with
  | .list [.model target, .string op, .string path] => request target op path none
  | .list [.model target, .string op, .string path, value] =>
    -- An undefined value counts as none.
    let value? ← lift value.toJson?
    request target op path value?
  | _ => Expr.wrongShape .patchCall result
where
  request (target : ModelRef) (op path : String) (value? : Option Json) :
      Fallible (ModelRef × Patch) :=
    match PatchOp.ofName? op with
    | some op => pure (target, ⟨op, path, value?⟩)
    | none => throw (.unknownPatchOp op)

/-- What a handler asks for on an event. -/
def request (h : EventHandler) (evaluator : Evaluator) (event : Value) :
    Fallible (ModelRef × Patch) := do
  let result ← evaluator h.expression (Members.set "$event" event h.context)
  requestOf result

/-- Fire a handler: what was changed, or why nothing was. -/
def tryInvoke (h : EventHandler) (evaluator : Evaluator) (event : Value) (live : Live) :
    Except Error (Change × Live) × List Event :=
  let (requested, events) := live.look (h.request evaluator event).run
  match requested with
  | .error e => (.error (.expr e), events)
  | .ok (target, patch) => ((live.apply target patch).mapError .patch, events)

/-- Fire a handler, which does nothing where it fails. -/
def invoke (h : EventHandler) (evaluator : Evaluator) (event : Value) (live : Live) :
    Bool × List Event × Live :=
  let (result, events) := h.tryInvoke evaluator event live
  match result with
  | .ok (_, live) => (true, events, live)
  | .error e => (false, events ++ [.handlerFailed h.expression e.message], live)

end BoundView.EventHandler
