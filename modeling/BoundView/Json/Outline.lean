import BoundView.Json.Found
import BoundView.Json.Literal
import BoundView.Json.Quotation

/-!
# The outline of a JSON text

`Outline.ofText` reads a text as far as it is JSON and keeps each fault where it stands, so that a
decoder that walks the outline in document order meets the faults of the text and its own objections
in that order.  A value may be wanted or passed over; text that is passed over is held to less: its
numbers may have any size, its escapes need not pair up, and it may be nested to any depth.
-/

namespace BoundView.Json

/-- A fault where the value is wanted, and the fault where it is passed over. -/
structure Faults where
  wanted : Fault
  skipped : Fault
  deriving DecidableEq, Repr

def Faults.both (fault : Fault) : Faults :=
  ⟨fault, fault⟩

/-- What a text that is no value looks like. -/
inductive Broken where
  /-- The text ends, or no value starts with its next character. -/
  | missing
  | word
  | number
  | string
  deriving DecidableEq, Repr

/-- How the parts of a container end. -/
inductive Ending where
  | closed
  | endOfText
  | endAfterComma
  | trailingComma
  | notContinued
  deriving DecidableEq, Repr

/-- How the members of an object end. -/
inductive ObjectEnd where
  | plain (ending : Ending)
  /-- The next member has no key, but something else. -/
  | keyless (instead : Except Fault Found)
  /-- The next key is a string with faults. -/
  | brokenKey (faults : Faults)
  /-- The next key has no colon behind it. -/
  | brokenMember (key : Except Fault String) (fault : Fault)

inductive Outline where
  | null
  | bool (b : Bool)
  | number (n : Except Fault Number)
  | string (s : Except Fault String)
  | array (items : List Outline) (ending : Ending)
  | object (members : List (Except Fault String × Outline)) (ending : ObjectEnd)
  /-- A container beyond the depth to which text is read. -/
  | deep (inner : Outline)
  | broken (shape : Broken) (faults : Faults)

/-- What is wrong where the next element of an array is wanted. -/
def Ending.arrayFault? : Ending → Option Fault
  | .closed => none
  | .endOfText => some .endInArray
  | .endAfterComma => some .endInValue
  | .trailingComma => some .trailingComma
  | .notContinued => some .arrayNotContinued

/-- What is wrong where the next key of an object is wanted. -/
def Ending.objectFault? : Ending → Option Fault
  | .closed => none
  | .endOfText => some .endInObject
  | .endAfterComma => some .endInValue
  | .trailingComma => some .trailingComma
  | .notContinued => some .objectNotContinued

/-- What is wrong with the end of an array that is passed over. -/
def Ending.skippedArrayFault? : Ending → Option Fault
  | .trailingComma => some .valueExpected
  | ending => ending.arrayFault?

/-- What is wrong with the end of an object that is passed over. -/
def ObjectEnd.skippedFault? : ObjectEnd → Option Fault
  | .plain .trailingComma => some .keyNotString
  | .plain .endAfterComma => some .endInObject
  | .plain ending => ending.objectFault?
  | .keyless _ => some .keyNotString
  | .brokenKey faults => some faults.skipped
  | .brokenMember _ fault => some fault

namespace Outline

/-- The deepest container that text may hold where it is wanted. -/
def maxDepth : Nat := 127

/-- The white space of JSON. -/
def isSpace (c : Char) : Bool :=
  c == ' ' || c == '\n' || c == '\t' || c == '\r'

def skipSpace (cs : List Char) : List Char :=
  cs.dropWhile isSpace

/-- The rest of a word whose first letter is read. -/
def word (expected : List Char) (value : Outline) (cs : List Char) : Outline × List Char :=
  match expected, cs with
  | [], rest => (value, rest)
  | _ :: _, [] => (.broken .word (.both .endInValue), [])
  | e :: expected, c :: rest =>
    if c = e then word expected value rest else (.broken .word (.both .wordExpected), rest)

def quoted (cs : List Char) : Except Faults (Except Fault String) × List Char :=
  let (pieces, stop) := Quotation.scan cs
  let joined := String.ofList <$> Quotation.join stop pieces
  match stop, stop.fault?, joined with
  | .close rest, _, _ => (.ok joined, rest)
  | _, some skipped, .error wanted => (.error ⟨wanted, skipped⟩, [])
  | _, _, _ => (.error (.both .endInString), [])

/-- A number whose digits end too early. -/
def shortNumber (rest : List Char) : Faults :=
  if rest.isEmpty then ⟨.endInValue, .invalidNumber⟩ else .both .invalidNumber

/-- The digits that follow, at least one. -/
def digits (cs : List Char) : Except Faults (List Char × List Char) :=
  match cs.takeWhile Char.isDigit with
  | [] => .error (shortNumber cs)
  | ds => .ok (ds, cs.dropWhile Char.isDigit)

def wholePart (cs : List Char) : Except Faults (List Char × List Char) := do
  let (ds, rest) ← digits cs
  match ds with
  -- A zero in front of other digits.
  | '0' :: _ :: _ => .error (.both .invalidNumber)
  | _ => .ok (ds, rest)

def fractionPart (cs : List Char) : Except Faults (Option (List Char) × List Char) :=
  match cs with
  | '.' :: rest => do
    let (ds, rest) ← digits rest
    .ok (some ds, rest)
  | _ => .ok (none, cs)

def exponentPart (cs : List Char) : Except Faults (Option (Bool × List Char) × List Char) :=
  let signed (cs : List Char) : Bool × List Char :=
    match cs with
    | '-' :: rest => (true, rest)
    | '+' :: rest => (false, rest)
    | _ => (false, cs)
  match cs with
  | c :: rest =>
    if c = 'e' ∨ c = 'E' then do
      let (negative, rest) := signed rest
      let (ds, rest) ← digits rest
      .ok (some (negative, ds), rest)
    else .ok (none, cs)
  | [] => .ok (none, [])

/-- A number literal behind its sign. -/
def literal (negative : Bool) (cs : List Char) : Except Faults (Literal × List Char) := do
  let (whole, rest) ← wholePart cs
  let (fraction, rest) ← fractionPart rest
  let (exponent, rest) ← exponentPart rest
  .ok (⟨negative, whole, fraction, exponent⟩, rest)

def numeral (negative : Bool) (cs : List Char) : Outline × List Char :=
  match literal negative cs with
  | .error faults => (.broken .number faults, [])
  | .ok (l, rest) =>
    match l.value? with
    | some n => (.number (.ok n), rest)
    | none => (.number (.error .numberOutOfRange), rest)

/-- The value that stands here, as a message shows it. -/
def found : Outline → Except Fault Found
  | .null => .ok .null
  | .bool b => .ok (.bool b)
  | .number n => .number <$> n
  | .string s => .string <$> s
  | .array _ _ => .ok .array
  | .object _ _ => .ok .object
  | .deep inner => found inner
  | .broken _ faults => .error faults.wanted

def isNull : Outline → Bool
  | .null => true
  | _ => false

/-- A container at a depth. -/
def atDepth (depth : Nat) (o : Outline) : Outline :=
  if maxDepth < depth then .deep o else o

mutual

/-- The value at the start of a text, and the text behind it.  Each call reads a character or is the
last, so fuel of twice the text's length is enough. -/
def value (fuel depth : Nat) (cs : List Char) : Outline × List Char :=
  match fuel with
  | 0 => (.broken .missing (.both .endInValue), [])
  | fuel + 1 =>
    match skipSpace cs with
    | [] => (.broken .missing (.both .endInValue), [])
    | c :: rest =>
      if c = 'n' then word ['u', 'l', 'l'] .null rest
      else if c = 't' then word ['r', 'u', 'e'] (.bool true) rest
      else if c = 'f' then word ['a', 'l', 's', 'e'] (.bool false) rest
      else if c = '-' then numeral true rest
      else if c.isDigit then numeral false (c :: rest)
      else if c = '"' then
        match quoted rest with
        | (.ok s, rest) => (.string s, rest)
        | (.error faults, rest) => (.broken .string faults, rest)
      else if c = '[' then
        let (items, ending, rest) := elements fuel (depth + 1) true rest
        (atDepth (depth + 1) (.array items ending), rest)
      else if c = '\x7b' then
        let (items, ending, rest) := members fuel (depth + 1) true rest
        (atDepth (depth + 1) (.object items ending), rest)
      else (.broken .missing (.both .valueExpected), c :: rest)

/-- The elements of an array, from behind its bracket or an element on. -/
def elements (fuel depth : Nat) (first : Bool) (cs : List Char) :
    List Outline × Ending × List Char :=
  match fuel with
  | 0 => ([], .endOfText, [])
  | fuel + 1 =>
    let next (cs : List Char) :=
      let (item, rest) := value fuel depth cs
      let (items, ending, rest) := elements fuel depth false rest
      (item :: items, ending, rest)
    match skipSpace cs with
    | [] => ([], .endOfText, [])
    | ']' :: rest => ([], .closed, rest)
    | c :: rest =>
      if first then next (c :: rest)
      else if c = ',' then
        match skipSpace rest with
        | [] => ([], .endAfterComma, [])
        | ']' :: _ => ([], .trailingComma, [])
        | rest => next rest
      else ([], .notContinued, [])

/-- The members of an object, from behind its brace or a member on. -/
def members (fuel depth : Nat) (first : Bool) (cs : List Char) :
    List (Except Fault String × Outline) × ObjectEnd × List Char :=
  match fuel with
  | 0 => ([], .plain .endOfText, [])
  | fuel + 1 =>
    let next (cs : List Char) : List (Except Fault String × Outline) × ObjectEnd × List Char :=
      match quoted cs with
      | (.error faults, _) => ([], .brokenKey faults, [])
      | (.ok key, rest) =>
        match skipSpace rest with
        | ':' :: rest =>
          let (item, rest) := value fuel depth rest
          let (items, ending, rest) := members fuel depth false rest
          ((key, item) :: items, ending, rest)
        | [] => ([], .brokenMember key .endInObject, [])
        | _ => ([], .brokenMember key .colonExpected, [])
    match skipSpace cs with
    | [] => ([], .plain .endOfText, [])
    | '\x7d' :: rest => ([], .plain .closed, rest)
    | c :: rest =>
      if first then
        -- Something stands in the place of a key; a message may have to show it.
        if c = '"' then next rest else ([], .keyless (value fuel depth (c :: rest)).1.found, [])
      else if c = ',' then
        match skipSpace rest with
        | [] => ([], .plain .endAfterComma, [])
        | '\x7d' :: _ => ([], .plain .trailingComma, [])
        | '"' :: rest => next rest
        | rest => ([], .keyless (value fuel depth rest).1.found, [])
      else ([], .plain .notContinued, [])

end

/-- The outline of the document at the start of a text, and the text behind it. -/
def ofText (text : String) : Outline × List Char :=
  let cs := text.toList
  value (2 * cs.length + 2) 0 cs

mutual

/-- The outline of a document that is read already has no faults. -/
def ofJson : Json → Outline
  | .null => .null
  | .bool b => .bool b
  | .number n => .number (.ok n)
  | .string s => .string (.ok s)
  | .array items => .array (ofItems items) .closed
  | .object ms => .object (ofMembers ms) (.plain .closed)

def ofItems : List Json → List Outline
  | [] => []
  | x :: xs => ofJson x :: ofItems xs

def ofMembers : List (String × Json) → List (Except Fault String × Outline)
  | [] => []
  | (key, value) :: rest => (.ok key, ofJson value) :: ofMembers rest

end

end Outline

end BoundView.Json
