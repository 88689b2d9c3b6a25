import BoundView.Document.Value

/-!
# Reading records, maps, lists and names of choices

A record is an object, or the array of its fields in their order.  Its members are read in document
order and unknown ones are passed over; the first problem wins.  A reader is given each part with
the proof that it is smaller than the whole, so that shapes may refer to themselves.
-/

namespace BoundView.Document

open Json (Fault Outline Ending ObjectEnd)

/-- Whether a document is read from text, which may be faulty behind what is read, or is a value. -/
inductive Origin where
  | text
  | value
  deriving DecidableEq, Repr

structure Field where
  name : String
  /-- Another name that a member may have. -/
  otherName : Option String
  /-- Whether the member has to be there. -/
  mandatory : Bool
  /-- Whether the array form has to reach to this field. -/
  listed : Bool
  deriving DecidableEq, Repr

structure Shape where
  name : String
  fields : List Field
  deriving DecidableEq, Repr

def Shape.field? (shape : Shape) (key : String) : Option Field :=
  shape.fields.find? fun f => f.name = key ∨ f.otherName = some key

def Shape.title (shape : Shape) : String :=
  "struct " ++ shape.name

/-- What an array that is too short should have been. -/
def Shape.lengthText (shape : Shape) : String :=
  let n := shape.fields.length
  shape.title ++ " with " ++ toString n ++ if n = 1 then " element" else " elements"

/-- A part of an outline. -/
abbrev Part (o : Outline) := { part : Outline // sizeOf part < sizeOf o }

theorem sizeOf_item_lt {items : List Outline} {ending : Ending} {item : Outline}
    (h : item ∈ items) : sizeOf item < sizeOf (Outline.array items ending) := by
  have := List.sizeOf_lt_of_mem h
  simp only [Outline.array.sizeOf_spec]
  omega

theorem sizeOf_member_lt {ms : List (Except Fault String × Outline)} {ending : ObjectEnd}
    {key : Except Fault String} {value : Outline} (h : (key, value) ∈ ms) :
    sizeOf value < sizeOf (Outline.object ms ending) := by
  have := List.sizeOf_lt_of_mem h
  simp only [Outline.object.sizeOf_spec, Prod.mk.sizeOf_spec] at *
  omega

def itemParts (items : List Outline) (ending : Ending) : List (Part (.array items ending)) :=
  items.attach.map fun item => ⟨item.1, sizeOf_item_lt item.2⟩

def memberParts (ms : List (Except Fault String × Outline)) (ending : ObjectEnd) :
    List (Except Fault String × Part (.object ms ending)) :=
  ms.attach.map fun member => (member.1.1, ⟨member.1.2, sizeOf_member_lt member.2⟩)

section

variable {ρ α : Type} {o : Outline}

/-- The members of a record; `seen` are the fields that are read. -/
def readMembers (shape : Shape) (set : Field → Part o → ρ → Except Problem ρ) (ending : ObjectEnd) :
    List (Except Fault String × Part o) → List String → ρ → Except Problem ρ
  | [], seen, r => do
    -- A key that is there a second time is refused before its colon is looked for.
    if let .brokenMember (.ok key) _ := ending then
      if let some field := shape.field? key then
        if field.name ∈ seen then throw (.here (.duplicateField field.name))
    endObject ending
    match shape.fields.find? fun f => f.mandatory ∧ f.name ∉ seen with
    | some field => .error (.here (.missingField field.name))
    | none => .ok r
  | (key, part) :: rest, seen, r => do
    let key ← under .unnamed (ofFault key)
    match shape.field? key with
    | none =>
      -- An unknown member is passed over.
      under (.member key) (ofFault (skip part.1))
      readMembers shape set ending rest seen r
    | some field =>
      if field.name ∈ seen then throw (.here (.duplicateField field.name))
      let r ← under (.member key) (set field part r)
      readMembers shape set ending rest (field.name :: seen) r

/-- The end of a record's array form, when all fields are read. -/
def endFields (origin : Origin) (length : Nat) (more : Bool) (ending : Ending) :
    Except Problem Unit :=
  match origin, more with
  | .value, false => .ok ()
  | .value, true => .error (.here (.wrongLength length "fewer elements in array"))
  -- A further element is found where the end should be.
  | .text, true => fault .trailingCharacters
  | .text, false =>
    match ending with
    | .closed => .ok ()
    | .trailingComma => fault .trailingComma
    | .endOfText => fault .endInArray
    | _ => fault .trailingCharacters

/-- The fields of a record's array form, of which the first is at `index`. -/
def readFields (origin : Origin) (shape : Shape) (set : Field → Part o → ρ → Except Problem ρ)
    (ending : Ending) (index : Nat) : List Field → List (Part o) → ρ → Except Problem ρ
  | [], parts, r => do
    endFields origin (index + parts.length) (!parts.isEmpty) ending
    .ok r
  | field :: fields, part :: parts, r => do
    let r ← under (.index index) (set field part r)
    readFields origin shape set ending (index + 1) fields parts r
  | field :: fields, [], r => do
    ofFault? ending.arrayFault?
    if field.listed then throw (.here (.wrongLength index shape.lengthText))
    readFields origin shape set ending (index + 1) fields [] r

/-- A record; `set` reads one field into what is read so far. -/
def readRecord (origin : Origin) (shape : Shape) (start : ρ) (o : Outline)
    (set : Field → Part o → ρ → Except Problem ρ) : Except Problem ρ :=
  match o with
  | .object ms ending => readMembers shape set ending (memberParts ms ending) [] start
  | .array items ending =>
    readFields origin shape set ending 0 shape.fields (itemParts items ending) start
  | .deep _ => fault .tooDeep
  | o => unexpected shape.title o

def readEntries (read : Part o → Except Problem α) (ending : ObjectEnd) :
    List (Except Fault String × Part o) → Except Problem (List (String × α))
  | [] => do
    endObject ending
    .ok []
  | (key, part) :: rest => do
    let key ← under .unnamed (ofFault key)
    let value ← under (.member key) (read part)
    let rest ← readEntries read ending rest
    .ok ((key, value) :: rest)

/-- A map from any names; a repeated name keeps its first place and its last value. -/
def readMap (o : Outline) (read : Part o → Except Problem α) : Except Problem (Members α) :=
  match o with
  | .object ms ending => Members.ofList <$> readEntries read ending (memberParts ms ending)
  | .deep (.object _ _) => fault .tooDeep
  | o => unexpected "a map" o

def readElements (read : Part o → Except Problem α) (ending : Ending) (index : Nat) :
    List (Part o) → Except Problem (List α)
  | [] => do
    ofFault? ending.arrayFault?
    .ok []
  | part :: rest => do
    let value ← under (.index index) (read part)
    let rest ← readElements read ending (index + 1) rest
    .ok (value :: rest)

def readList (o : Outline) (read : Part o → Except Problem α) : Except Problem (List α) :=
  match o with
  | .array items ending => readElements read ending 0 (itemParts items ending)
  | .deep (.array _ _) => fault .tooDeep
  | o => unexpected "a sequence" o

end

/-- The name of one of several choices. -/
def choose {α : Type} (choices : List (String × α)) (name : String) : Except Problem α :=
  match choices.lookup name with
  | some choice => .ok choice
  | none => .error (.here (.unknownName name (choices.map Prod.fst)))

/-- `null`, where a choice has nothing more to say. -/
def readUnit : Outline → Except Problem Unit
  | .null => .ok ()
  | o => unexpected "unit" o

/-- What follows the only member of the map that names a choice in text. -/
def endChoice (more : Bool) : ObjectEnd → Except Problem Unit
  | .plain .closed => if more then fault .valueExpected else .ok ()
  | .plain .endOfText => fault (if more then .valueExpected else .endInObject)
  | _ => fault .valueExpected

/-- The map that names a choice in text, when it has no member. -/
def emptyChoice {α : Type} : ObjectEnd → Except Problem α
  | .plain .endOfText => fault .endInValue
  | .plain _ => fault .valueExpected
  | .keyless instead => do
    let found ← ofFault instead
    .error (.here (.wrongKind found "variant identifier"))
  | .brokenKey faults => fault faults.wanted
  | .brokenMember key f => do
    let _ ← ofFault key
    fault f

/-- A choice: its name, or a map from its name to `null`. -/
def readChoice {α : Type} (origin : Origin) (choices : List (String × α)) :
    Outline → Except Problem α
  | .string s => do choose choices (← ofFault s)
  | .object ms ending =>
    match origin, ms with
    | .value, [(key, value)] => do
      let key ← ofFault key
      let choice ← choose choices key
      under (.member key) (readUnit value)
      .ok choice
    | .value, _ => .error (.here .notOneKey)
    | .text, [] =>
      match ending with
      | .brokenMember (.ok key) f => do
        let _ ← choose choices key
        fault f
      | _ => emptyChoice ending
    | .text, (key, value) :: rest => do
      let key ← ofFault key
      let choice ← choose choices key
      under (.member key) (readUnit value)
      endChoice (!rest.isEmpty) ending
      .ok choice
  | .deep (.object _ _) => fault .tooDeep
  | .broken .missing faults => fault faults.wanted
  | .broken .string faults => fault faults.wanted
  | o =>
    match origin with
    | .text => fault .valueExpected
    | .value => unexpected "string or map" o

end BoundView.Document
