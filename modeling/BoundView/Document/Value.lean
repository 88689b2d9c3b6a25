import BoundView.Document.Problem
import BoundView.Json.Outline

/-!
# Reading values out of an outline

`toJson` reads a value that is wanted as a whole, `skip` passes one over, and the others read values
of one kind.  What stands in the place of a value of another kind is only looked into as far as the
message shows it: a container of the wrong kind is not read.
-/

namespace BoundView.Document

open Json (Fault Outline Ending ObjectEnd)

def fault {α : Type} (f : Fault) : Except Problem α :=
  .error (.here (.fault f))

def ofFault {α : Type} : Except Fault α → Except Problem α
  | .ok a => .ok a
  | .error f => fault f

def ofFault? : Option Fault → Except Problem Unit
  | none => .ok ()
  | some f => fault f

/-- The members of an object are read to its end. -/
def endObject : ObjectEnd → Except Problem Unit
  | .plain ending => under .unnamed (ofFault? ending.objectFault?)
  | .keyless _ => under .unnamed (fault .keyNotString)
  | .brokenKey faults => under .unnamed (fault faults.wanted)
  | .brokenMember key f => do
    let _ ← under .unnamed (ofFault key)
    fault f

mutual

/-- The whole value. -/
def toJson : Outline → Except Problem Json
  | .null => .ok .null
  | .bool b => .ok (.bool b)
  | .number n => .number <$> ofFault n
  | .string s => .string <$> ofFault s
  | .array items ending => do
    let items ← toItems 0 items
    ofFault? ending.arrayFault?
    .ok (.array items)
  | .object ms ending => do
    let ms ← toMembers ms
    endObject ending
    .ok (.object (Members.ofList ms))
  | .deep _ => fault .tooDeep
  | .broken _ faults => fault faults.wanted

def toItems (index : Nat) : List Outline → Except Problem (List Json)
  | [] => .ok []
  | item :: rest => do
    let item ← under (.index index) (toJson item)
    let rest ← toItems (index + 1) rest
    .ok (item :: rest)

def toMembers : List (Except Fault String × Outline) → Except Problem (List (String × Json))
  | [] => .ok []
  | (key, value) :: rest => do
    let key ← under .unnamed (ofFault key)
    let value ← under (.member key) (toJson value)
    let rest ← toMembers rest
    .ok ((key, value) :: rest)

end

/-- A part that is passed over. -/
def skipFault? : Option Fault → Except Fault Unit
  | none => .ok ()
  | some f => .error f

mutual

/-- Whether a value can be passed over. -/
def skip : Outline → Except Fault Unit
  | .array items ending => do
    skipItems items
    skipFault? ending.skippedArrayFault?
  | .object ms ending => do
    skipMembers ms
    skipFault? ending.skippedFault?
  | .deep inner => skip inner
  | .broken _ faults => .error faults.skipped
  | _ => .ok ()

def skipItems : List Outline → Except Fault Unit
  | [] => .ok ()
  | item :: rest => do
    skip item
    skipItems rest

def skipMembers : List (Except Fault String × Outline) → Except Fault Unit
  | [] => .ok ()
  | (_, value) :: rest => do
    skip value
    skipMembers rest

end

/-- A value where one of another kind should be. -/
def unexpected {α : Type} (expected : String) (o : Outline) : Except Problem α := do
  let found ← ofFault o.found
  .error (.here (.wrongKind found expected))

def toText : Outline → Except Problem String
  | .string s => ofFault s
  | o => unexpected "a string" o

def toBool : Outline → Except Problem Bool
  | .bool b => .ok b
  | o => unexpected "a boolean" o

/-- A number, as the binary64 number nearest to it. -/
def toFloat : Outline → Except Problem Float
  | .number n => (·.toFloat) <$> ofFault n
  | o => unexpected "f64" o

/-- `null` stands for nothing. -/
def optional {α : Type} (read : Outline → Except Problem α) : Outline → Except Problem (Option α)
  | .null => .ok none
  | o => some <$> read o

end BoundView.Document

namespace BoundView.Json

/-- The document that a text holds, with nothing but white space behind it. -/
def parse (text : String) : Except Document.Problem Json := do
  let (outline, rest) := Outline.ofText text
  let value ← Document.toJson outline
  if (Outline.skipSpace rest).isEmpty then .ok value
  else Document.fault .trailingCharacters

end BoundView.Json
