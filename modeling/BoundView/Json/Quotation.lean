import BoundView.Json.Fault
import BoundView.Text.ByteLength

/-!
# Quoted strings of JSON text

Reading a quoted string takes two steps.  `scan` finds its end and its pieces: characters, and the
16-bit units that hexadecimal escapes write.  `join` puts the pieces together: a unit is a character
of its own or half of a surrogate pair.  Text that is passed over is only scanned.
-/

namespace BoundView.Json.Quotation

inductive Piece where
  | char (c : Char)
  | unit (n : Nat)
  deriving DecidableEq, Repr

/-- What stops the scan of a quoted string. -/
inductive Stop where
  | close (rest : List Char)
  | endOfText
  | control
  /-- A backslash before a character that no escape starts with. -/
  | badEscape
  /-- An escape whose four digits are not hexadecimal. -/
  | badDigits
  deriving DecidableEq, Repr

/-- What is wrong with a string that is scanned and stops here. -/
def Stop.fault? : Stop → Option Fault
  | .close _ => none
  | .endOfText => some .endInString
  | .control => some .controlCharacter
  | .badEscape => some .invalidEscape
  | .badDigits => some .invalidEscape

def hexValue? (c : Char) : Option Nat :=
  if c.isDigit then some (c.toNat - '0'.toNat)
  else if 'a' ≤ c ∧ c ≤ 'f' then some (c.toNat - 'a'.toNat + 10)
  else if 'A' ≤ c ∧ c ≤ 'F' then some (c.toNat - 'A'.toNat + 10)
  else none

def unit? (a b c d : Char) : Option Nat := do
  let a ← hexValue? a
  let b ← hexValue? b
  let c ← hexValue? c
  let d ← hexValue? d
  some (((a * 16 + b) * 16 + c) * 16 + d)

/-- The character that a backslash and `c` write. -/
def escaped? (c : Char) : Option Char :=
  if c = '"' ∨ c = '\\' ∨ c = '/' then some c
  else if c = 'b' then some '\x08'
  else if c = 'f' then some '\x0c'
  else if c = 'n' then some '\n'
  else if c = 'r' then some '\r'
  else if c = 't' then some '\t'
  else none

/-- Four digits are looked for among the next four bytes. -/
def stopInDigits (cs : List Char) : Stop :=
  if Text.byteLength (cs.take 4) < 4 then .endOfText else .badDigits

/-- The pieces of a quoted string, from behind its opening quote on, and where it stops. -/
def scan : List Char → List Piece × Stop
  | [] => ([], .endOfText)
  | '"' :: rest => ([], .close rest)
  | '\\' :: 'u' :: a :: b :: c :: d :: rest =>
    match unit? a b c d with
    | some n =>
      let (pieces, stop) := scan rest
      (.unit n :: pieces, stop)
    | none => ([], .badDigits)
  | '\\' :: 'u' :: rest => ([], stopInDigits rest)
  | ['\\'] => ([], .endOfText)
  | '\\' :: c :: rest =>
    match escaped? c with
    | some e =>
      let (pieces, stop) := scan rest
      (.char e :: pieces, stop)
    | none => ([], .badEscape)
  | c :: rest =>
    if c < ' ' then ([], .control)
    else
      let (pieces, stop) := scan rest
      (.char c :: pieces, stop)

def isLeading (n : Nat) : Bool := 0xd800 ≤ n && n < 0xdc00

def isTrailing (n : Nat) : Bool := 0xdc00 ≤ n && n < 0xe000

/-- What is wrong when a leading surrogate is the last piece. -/
def Stop.faultAfterLeading : Stop → Fault
  | .close _ => .unpairedEscape
  | .endOfText => .endInString
  | .control => .unpairedEscape
  | .badEscape => .unpairedEscape
  | .badDigits => .invalidEscape

/-- The characters of a string; the first fault wins, be it of the pieces or of the stop. -/
def join (stop : Stop) : List Piece → Except Fault (List Char)
  | [] =>
    match stop.fault? with
    | none => .ok []
    | some fault => .error fault
  | .char c :: rest => (c :: ·) <$> join stop rest
  | .unit n :: rest =>
    -- A trailing half has to follow a leading one.
    if isTrailing n then .error .loneSurrogate
    else if isLeading n then
      match rest with
      | [] => .error stop.faultAfterLeading
      -- Only another escape can complete a leading half.
      | .char _ :: _ => .error .unpairedEscape
      | .unit m :: rest =>
        if isTrailing m then
          (Char.ofNat (0x10000 + (n - 0xd800) * 0x400 + (m - 0xdc00)) :: ·) <$> join stop rest
        else .error .loneSurrogate
    else (Char.ofNat n :: ·) <$> join stop rest

end BoundView.Json.Quotation
