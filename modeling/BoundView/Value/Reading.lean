import BoundView.Event
import BoundView.Json.Printer
import BoundView.Value.Basic

/-!
# Reading models

A reading looks at models and leaves a trace: which nodes it depends on, and what there is to log.
Every look at the data of a model goes through one of the functions on references below, and all but
`ModelRef.isArray` record what they looked at.
-/

namespace BoundView

structure Trace where
  reads : List Dependency
  events : List Event
  deriving DecidableEq

namespace Trace

def empty : Trace :=
  ⟨[], []⟩

def append (a b : Trace) : Trace :=
  ⟨a.reads ++ b.reads, a.events ++ b.events⟩

end Trace

def Reading (α : Type) : Type :=
  Models → α × Trace

namespace Reading

variable {α β : Type}

protected def pure (a : α) : Reading α :=
  fun _ => (a, .empty)

protected def bind (m : Reading α) (f : α → Reading β) : Reading β := fun models =>
  let (a, first) := m models
  let (b, second) := f a models
  (b, first.append second)

instance : Monad Reading where
  pure := Reading.pure
  bind := Reading.bind

/-- A look that leaves no trace. -/
def peek (f : Models → α) : Reading α :=
  fun models => (f models, .empty)

def record (d : Dependency) : Reading Unit :=
  fun _ => ((), ⟨[d], []⟩)

def log (e : Event) : Reading Unit :=
  fun _ => ((), ⟨[], [e]⟩)

/-- A reading that may fail; what it did up to then stays in its trace. -/
abbrev Fallible := ExceptT Expr.Error Reading

/-- A reading that does not fail. -/
def lift (m : Reading α) : Fallible α :=
  ExceptT.lift m

end Reading

namespace ModelRef

variable (r : ModelRef)

/-- The value at a reference: a composite node stays a reference. -/
def load : Reading Value :=
  Reading.peek fun models =>
    match r.node? models with
    | none => .undefined
    | some (.array _) => .model r
    | some (.object _) => .model r
    | some leaf => Value.ofJson leaf

def observe (deep : Bool) : Reading Unit :=
  .record (r.dependency deep)

/-- The value one step down. -/
def readChild (seg : Seg) : Reading Value := do
  (r.child seg).observe false
  (r.child seg).load

/-- The length of an array. -/
def length? : Reading (Option Nat) := do
  r.observe false
  Reading.peek fun models =>
    match r.node? models with
    | some (.array items) => some items.length
    | _ => none

/-- The elements from `index` on, as many as given. -/
def elements (index : Nat) : Nat → Reading (List Value)
  | 0 => pure []
  | count + 1 => do
    let first ← r.readChild (.index index)
    let rest ← elements (index + 1) count
    pure (first :: rest)

/-- The elements of an array. -/
def items? : Reading (Option (List Value)) := do
  match ← r.length? with
  | none => pure none
  | some length => some <$> r.elements 0 length

/-- The document at a reference, `null` where there is none. -/
def snapshot : Reading Json := do
  r.observe true
  Reading.peek fun models => (r.node? models).getD .null

end ModelRef

namespace Value

mutual

/-- The document of a value: `undefined` is written as `null`, a reference as what it leads to. -/
def toJson : Value → Reading Json
  | .undefined => pure .null
  | .null => pure .null
  | .bool b => pure (.bool b)
  | .number x => pure (Json.ofFloat x)
  | .string s => pure (.string s)
  | .list items => do pure (.array (← toItems items))
  | .map ms => do pure (.object (← toMembers ms))
  | .model r => r.snapshot

def toItems : List Value → Reading (List Json)
  | [] => pure []
  | item :: rest => do
    let first ← toJson item
    let others ← toItems rest
    pure (first :: others)

def toMembers : List (String × Value) → Reading (List (String × Json))
  | [] => pure []
  | (name, value) :: rest => do
    let first ← toJson value
    let others ← toMembers rest
    pure ((name, first) :: others)

end

/-- The document of a value that is there. -/
def toJson? (v : Value) : Reading (Option Json) := do
  if v.isUndefined then pure none else some <$> v.toJson

mutual

/-- Depend on everything that a value leads to. -/
def observeDeep : Value → Reading Unit
  | .model r => r.observe true
  | .list items => observeItems items
  | .map ms => observeMembers ms
  | _ => pure ()

def observeItems : List Value → Reading Unit
  | [] => pure ()
  | item :: rest => do
    observeDeep item
    observeItems rest

def observeMembers : List (String × Value) → Reading Unit
  | [] => pure ()
  | (_, value) :: rest => do
    observeDeep value
    observeMembers rest

end

/-- The elements of a list or of an array of a model. -/
def items? : Value → Reading (Option (List Value))
  | .list items => pure (some items)
  | .model r => r.items?
  | _ => pure none

/-- The text of a value, as it stands in a longer text. -/
def display : Value → Reading String
  | .undefined => pure "undefined"
  | .string s => pure s
  | value => Json.compact <$> value.toJson

def displayAll : List Value → Reading (List String)
  | [] => pure []
  | value :: rest => do
    let first ← value.display
    let others ← displayAll rest
    pure (first :: others)

end Value

end BoundView
