import BoundView.Document.Record
import BoundView.Json.Printer
import BoundView.Text.Blank
import BoundView.Value.Basic

/-!
# Views

A view is a document in which some strings and objects have a meaning: `#` in front of an expression
reads a value, `%` makes a handler, an object with a `[]` repeats its template for the elements of a
source, and one with a `<>` is an element.  `ViewNode.classify` finds these out once.
-/

namespace BoundView

inductive ViewNode where
  | literal (v : Value)
  /-- The value of an expression. -/
  | read (expression : String)
  /-- A handler that makes a patch out of an event. -/
  | write (expression : String)
  | sequence (items : List ViewNode)
  | collection (source template : ViewNode)
  | element (tag : String) (props : List (String × ViewNode))
  /-- An object without a meaning, which is passed through. -/
  | raw (document : Json)

namespace ViewNode

instance : Inhabited ViewNode := ⟨.literal .undefined⟩

/-- The member of a name, if it holds anything but `null`, `false`, zero or an empty text. -/
def truthyMember? (name : String) (ms : Members Json) : Option Json :=
  (Members.find? name ms).filter fun value => (Value.ofJson value).isTruthy

/-- The tag that an element is written with. -/
def tagText : Json → String
  | .string s => s
  | other => other.compact

/-- A string: a binding, or itself. -/
def ofText (text : String) : ViewNode :=
  match Text.trimBlank text.toList with
  | '#' :: rest => .read (String.ofList rest)
  | '%' :: rest => .write (String.ofList rest)
  | _ => .literal (.string text)

/-- An object with these members, which are the nodes `nodes` on their own. -/
def ofMembers (ms : Members Json) (nodes : Members ViewNode) : ViewNode :=
  match truthyMember? "[]" ms, truthyMember? "<>" ms with
  -- A source makes a collection even beside a tag.
  | some _, _ =>
    .collection ((Members.find? "[]" nodes).getD (.literal .undefined))
      ((Members.find? "template" nodes).getD (.literal .undefined))
  | none, some tag => .element (tagText tag) (Members.erase "<>" nodes)
  | none, none => .raw (.object ms)

mutual

/-- What a document means as a view. -/
def classify : Json → ViewNode
  | .string text => ofText text
  | .array items => .sequence (classifyItems items)
  | .object ms => ofMembers ms (classifyMembers ms)
  | leaf => .literal (Value.ofJson leaf)

def classifyItems : List Json → List ViewNode
  | [] => []
  | item :: rest => classify item :: classifyItems rest

def classifyMembers : List (String × Json) → Members ViewNode
  | [] => []
  | (name, value) :: rest => (name, classify value) :: classifyMembers rest

end

mutual

/-- Equality of views; the order of members does not count. -/
def beq : ViewNode → ViewNode → Bool
  | .literal v, .literal w => v == w
  | .read e, .read f => e == f
  | .write e, .write f => e == f
  | .sequence xs, .sequence ys => beqItems xs ys
  | .collection s t, .collection u v => beq s u && beq t v
  | .element tag ps, .element other qs =>
    tag == other && ps.length == qs.length && beqProps ps qs
  | .raw i, .raw j => i == j
  | _, _ => false

def beqItems : List ViewNode → List ViewNode → Bool
  | [], [] => true
  | x :: xs, y :: ys => beq x y && beqItems xs ys
  | _, _ => false

/-- Whether each member of the first list has an equal one in the second. -/
def beqProps : List (String × ViewNode) → List (String × ViewNode) → Bool
  | [], _ => true
  | (name, node) :: rest, qs =>
    (match Members.find? name qs with
      | some other => beq node other
      | none => false)
    && beqProps rest qs

end

instance : BEq ViewNode := ⟨beq⟩

/-- What is shown for a view without a root. -/
def placeholder : ViewNode :=
  .element "h1" [("children", .literal (.string "Empty View"))]

end ViewNode

/-! ## Documents -/

/-- A view, as it stands in a bundle. -/
structure ViewDocument where
  root? : Option Json

namespace ViewDocument

open Document

def shape : Shape where
  name := "ViewDocument"
  fields := [{ name := "root", otherName := none, mandatory := false, listed := false }]

/-- Read a view. -/
def read (origin : Origin) (o : Json.Outline) : Except Problem ViewDocument :=
  readRecord origin shape (⟨none⟩ : ViewDocument) o fun _ part _ => do
    let root? ← optional toJson part.1
    .ok ⟨root?⟩

/-- Read a view from the start of a text. -/
def ofText (text : String) : Except Problem ViewDocument :=
  read .text (Json.Outline.ofText text).1

def ofJson (document : Json) : Except Problem ViewDocument :=
  read .value (Json.Outline.ofJson document)

def toJson (d : ViewDocument) : Json :=
  .object [("root", d.root?.getD .null)]

/-- The root of the view, if it is anything but `null`, `false`, zero or an empty text. -/
def rootNode? (d : ViewDocument) : Option ViewNode :=
  (d.root?.filter fun root => (Value.ofJson root).isTruthy).map ViewNode.classify

/-- What is shown. -/
def shown (d : ViewDocument) : ViewNode :=
  d.rootNode?.getD .placeholder

end ViewDocument

end BoundView
