import BoundView.Bundle
import BoundView.Schema.Describe
import BoundView.View.Handler
import BoundView.View.Tree

/-!
# Sessions

A session runs a bundle: one model, and one view that is mounted over it.  A patch or a fired
handler changes the model and brings the view up to date; one that fails leaves the session as it
was.
-/

namespace BoundView

structure Session where
  interpreter : Interpreter
  stage : Stage
  schema : Schema
  model : ModelId
  /-- The boundary of the mounted view. -/
  root : BoundaryId

namespace Session

/-- The schema that a document describes, and what there is to log about it. -/
def schemaOf (document : Json) : Except Error Schema × List Event :=
  match PropertySpec.ofJson document with
  | .error p => (.error (.document p), [])
  | .ok spec =>
    let (schema, events) := Schema.compile spec
    (schema.mapError .compile, events)

/-- Make the model and mount the view. -/
def mount (view : ViewDocument) (data? : Option Json) (registry : Registry) (schema : Schema) :
    Except Error (Session × List Event) := do
  let initial := Live.initial schema schema.root data?
  let (model, live) ← (Live.empty.create schema schema.root initial).mapError .validation
  let interpreter : Interpreter := ⟨registry, .standard⟩
  let (root, events, stage) :=
    (interpreter.renderView view (.root model)).perform ⟨live, []⟩
  .ok (⟨interpreter, stage, schema, model, root⟩, events)

/-- Start a session. -/
def start (bundle : Bundle) (registry : Registry) : Except Error Session × List Event :=
  let (schema, compiled) := schemaOf bundle.model
  match schema.bind (mount bundle.view bundle.data? registry) with
  | .error e => (.error e, compiled)
  | .ok (session, events) => (.ok session, compiled ++ events)

variable (s : Session)

def describe : String :=
  s.schema.describe s.schema.root

def tree : RenderTree :=
  s.stage.tree s.root

def view : Json :=
  s.tree.toJson

def data : Json :=
  s.stage.live.data s.model

def output : Json :=
  .object [("view", s.view), ("model", s.data)]

/-- Bring the view up to date, and count the boundaries that are rendered again. -/
def flush : Nat × List Event × Session :=
  let (rendered, events, stage) := s.interpreter.flush.perform s.stage
  (rendered, events, { s with stage })

/-- The session with changed models, brought up to date. -/
def resume (live : Live) : Nat × List Event × Session :=
  { s with stage := { s.stage with live } }.flush

/-- Apply a patch to the model. -/
def apply (patch : Patch) : Except Error (Nat × List Event × Session) := do
  let (_, live) ← (s.stage.live.apply (.root s.model) patch).mapError .patch
  .ok (s.resume live)

/-- The tag and the property of a target: what is before and behind its first point. -/
def splitTarget (target : String) : Option (String × String) :=
  let cs := target.toList
  let tag := cs.takeWhile (· ≠ '.')
  match cs.dropWhile (· ≠ '.') with
  | _ :: prop =>
    if tag.isEmpty || prop.isEmpty then none else some (String.ofList tag, String.ofList prop)
  | [] => none

/-- The handler at a property of the first element with a tag. -/
def handlerAt (target : String) : Except ActionError EventHandler :=
  match splitTarget target with
  | none => .error (.badTarget target)
  | some (tag, prop) =>
    match s.tree.find? tag with
    | none => .error (.noElement tag)
    | some element =>
      match element.handler? prop with
      | none => .error (.noHandler tag prop)
      | some h => .ok h

/-- Fire a handler.  What its evaluation logs is kept also when it fails. -/
def fire (target : String) : Except Error (Nat × Session) × List Event :=
  match s.handlerAt target with
  | .error e => (.error (.action e), [])
  | .ok h =>
    let (result, events) := h.tryInvoke s.interpreter.evaluator .undefined s.stage.live
    match result with
    | .error e => (.error e, events)
    | .ok (_, live) =>
      -- The view is brought up to date only when a patch was applied.
      let (rendered, more, s) := s.resume live
      (.ok (rendered, s), events ++ more)

end Session

end BoundView
