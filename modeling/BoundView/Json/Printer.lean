import BoundView.Decimal.Layout
import BoundView.Json.Basic
import BoundView.Text.Quoted

/-!
# Writing JSON

`compact` writes a value without spaces, `pretty` over several lines.  Characters outside ASCII are
written as they are.
-/

namespace BoundView.Json

/-- A number that is no integer is written without an exponent from `0.00001` up to below
`10 ^ 16`, and always shows that it is no integer. -/
def layout : Decimal.Layout where
  positional e := -5 ≤ e ∧ e < 16
  pointZero := true

def Number.write : Number → String
  | .int n => toString n
  | .float x => layout.write x

def escapeChar (c : Char) : String :=
  if c = '"' then "\\\""
  else if c = '\\' then "\\\\"
  else if c = '\x08' then "\\b"
  else if c = '\t' then "\\t"
  else if c = '\n' then "\\n"
  else if c = '\x0c' then "\\f"
  else if c = '\r' then "\\r"
  else if c < ' ' then "\\u" ++ Text.hex 4 c.toNat
  else c.toString

def writeString (s : String) : String :=
  "\"" ++ String.join (s.toList.map escapeChar) ++ "\""

mutual

def compact : Json → String
  | .null => "null"
  | .bool b => if b then "true" else "false"
  | .number n => n.write
  | .string s => writeString s
  | .array items => "[" ++ String.intercalate "," (compactItems items) ++ "]"
  | .object ms => "\x7b" ++ String.intercalate "," (compactMembers ms) ++ "\x7d"

def compactItems : List Json → List String
  | [] => []
  | x :: xs => compact x :: compactItems xs

def compactMembers : List (String × Json) → List String
  | [] => []
  | (key, value) :: rest => (writeString key ++ ":" ++ compact value) :: compactMembers rest

end

/-- The text of a container whose parts stand on lines of their own. -/
def block (indent : Nat) (opening closing : String) (parts : List String) : String :=
  let line (depth : Nat) := "\n" ++ String.ofList (List.replicate (2 * depth) ' ')
  opening ++ String.intercalate "," (parts.map (line (indent + 1) ++ ·)) ++ line indent ++ closing

mutual

/-- Two more spaces at each level; an empty container stays on its line. -/
def prettyAt (indent : Nat) : Json → String
  | .null => "null"
  | .bool b => if b then "true" else "false"
  | .number n => n.write
  | .string s => writeString s
  | .array [] => "[]"
  | .array (x :: xs) => block indent "[" "]" (prettyItems (indent + 1) (x :: xs))
  | .object [] => "\x7b\x7d"
  | .object (m :: ms) => block indent "\x7b" "\x7d" (prettyMembers (indent + 1) (m :: ms))

def prettyItems (indent : Nat) : List Json → List String
  | [] => []
  | x :: xs => prettyAt indent x :: prettyItems indent xs

def prettyMembers (indent : Nat) : List (String × Json) → List String
  | [] => []
  | (key, value) :: rest =>
    (writeString key ++ ": " ++ prettyAt indent value) :: prettyMembers indent rest

end

def pretty (j : Json) : String :=
  prettyAt 0 j

end BoundView.Json
