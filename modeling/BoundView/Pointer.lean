import BoundView.Json.Basic

/-!
# Paths and JSON pointers

A path leads from the root of a document through fields and positions.  Its text form is a JSON
pointer (RFC 6901), whose tokens do not tell a field from a position.
-/

namespace BoundView

/-- One step of a path. -/
inductive Seg where
  | field (name : String)
  | index (i : Nat)
  deriving DecidableEq, Repr

abbrev Path := List Seg

namespace Seg

/-- A field comes before a position; fields are ordered by their characters. -/
def compare : Seg → Seg → Ordering
  | .field a, .field b => if a < b then .lt else if a = b then .eq else .gt
  | .field _, .index _ => .lt
  | .index _, .field _ => .gt
  | .index i, .index j => Ord.compare i j

end Seg

namespace Path

/-- The order of paths: step by step, a path before its extensions. -/
def compare : Path → Path → Ordering
  | [], [] => .eq
  | [], _ :: _ => .lt
  | _ :: _, [] => .gt
  | a :: as, b :: bs => (a.compare b).then (compare as bs)

end Path

namespace Pointer

def escapeChars : List Char → List Char
  | [] => []
  | '~' :: rest => '~' :: '0' :: escapeChars rest
  | '/' :: rest => '~' :: '1' :: escapeChars rest
  | c :: rest => c :: escapeChars rest

/-- `~1` is a slash and `~0` a tilde; a tilde before anything else stands for itself. -/
def unescapeChars : List Char → List Char
  | [] => []
  | '~' :: '1' :: rest => '/' :: unescapeChars rest
  | '~' :: '0' :: rest => '~' :: unescapeChars rest
  | c :: rest => c :: unescapeChars rest

def escape (token : String) : String :=
  String.ofList (escapeChars token.toList)

def unescape (token : String) : String :=
  String.ofList (unescapeChars token.toList)

/-- The parts of a text between slashes, at least one. -/
def parts : List Char → List (List Char)
  | [] => [[]]
  | '/' :: rest => [] :: parts rest
  | c :: rest =>
    match parts rest with
    | [] => [[c]]
    | first :: others => (c :: first) :: others

/-- The token of a step. -/
def token : Seg → String
  | .field name => escape name
  | .index i => toString i

/-- The pointer of a path: a slash before each token. -/
def format (path : Path) : String :=
  String.join (path.map fun seg => "/" ++ token seg)

/-- The tokens of a pointer; the empty one has none, any other starts with a slash. -/
def split (pointer : String) : Option (List String) :=
  match pointer.toList with
  | [] => some []
  | '/' :: rest => some ((parts rest).map fun part => String.ofList (unescapeChars part))
  | _ => none

end Pointer

namespace Json

/-- One step into a document. -/
def step? : Seg → Json → Option Json
  | .field name, j => j.member? name
  | .index i, j => j.element? i

/-- The node at a path. -/
def get? (j : Json) : Path → Option Json
  | [] => some j
  | seg :: path => (j.step? seg).bind fun child => child.get? path

/-- Replace the node one step down, which is there. -/
def putStep (j : Json) (seg : Seg) (child : Json) : Json :=
  match j, seg with
  | .object ms, .field name => .object (Members.set name child ms)
  | .array items, .index i => .array (items.set i child)
  | j, _ => j

/-- Change the node at a path by `f`; nothing comes of it where there is no node or `f` refuses. -/
def modify? (f : Json → Option Json) (j : Json) : Path → Option Json
  | [] => f j
  | seg :: path => do
    let child ← j.step? seg
    let child ← child.modify? f path
    some (j.putStep seg child)

/-- Put a value in the place of the node at a path. -/
def replace? (j value : Json) (path : Path) : Option Json :=
  j.modify? (fun _ => some value) path

end Json

end BoundView
