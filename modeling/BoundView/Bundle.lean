import BoundView.View.Node

/-!
# Bundles

A bundle holds all that an application consists of: the spec of its model, its view, and perhaps the
data that it starts from.
-/

namespace BoundView

structure Bundle where
  model : Json
  view : ViewDocument
  data? : Option Json

namespace Bundle

open Document

/-- The members of a bundle, as far as they are read. -/
structure Draft where
  model? : Option Json
  view : ViewDocument
  data? : Option Json

def shape : Shape where
  name := "Bundle"
  fields := [
    { name := "model", otherName := none, mandatory := true, listed := true },
    { name := "view", otherName := none, mandatory := false, listed := false },
    { name := "data", otherName := none, mandatory := false, listed := false }]

/-- Read a bundle. -/
def read (origin : Origin) (o : Json.Outline) : Except Problem Bundle := do
  let start : Draft := ⟨none, ⟨none⟩, none⟩
  let draft ← readRecord origin shape start o fun field part draft => do
    if field.name = "model" then
      let model ← toJson part.1
      .ok { draft with model? := some model }
    else if field.name = "view" then
      let view ← ViewDocument.read origin part.1
      .ok { draft with view }
    else
      let data? ← optional toJson part.1
      .ok { draft with data? }
  match draft.model? with
  | some model => .ok ⟨model, draft.view, draft.data?⟩
  | none => .error (.here (.missingField "model"))

/-- Read a bundle from the start of a text. -/
def ofText (text : String) : Except Problem Bundle :=
  read .text (Json.Outline.ofText text).1

def ofJson (document : Json) : Except Problem Bundle :=
  read .value (Json.Outline.ofJson document)

def toJson (b : Bundle) : Json :=
  .object
    ([("model", b.model), ("view", b.view.toJson)]
      ++ (b.data?.map fun data => ("data", data)).toList)

end Bundle

end BoundView
