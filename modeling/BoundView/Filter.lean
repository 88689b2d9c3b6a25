import BoundView.Decimal.Reader
import BoundView.Document.Value

/-!
# Filters

A filter turns one document into any number of documents.  The language is a part of that of the
`jq` tool:

    pipe    := comma ("|" comma)*
    comma   := term ("," term)*
    term    := primary ("." name | "[" integer "]" | "[]")*
    primary := "." | "." name | "-"? number | string | null | true | false | empty
             | "(" pipe ")" | "[" pipe? "]" | "{" entries "}"
    entries := (key ":" term ("|" term)*) separated by ","
-/

namespace BoundView

inductive Filter where
  | identity
  | literal (document : Json)
  /-- No output at all. -/
  | empty
  | member (of : Filter) (name : String)
  /-- An element by its position, counted from the end if it is negative. -/
  | element (of : Filter) (index : Int)
  /-- All elements or members. -/
  | each (of : Filter)
  | pipe (first second : Filter)
  | comma (first second : Filter)
  /-- All outputs in one array. -/
  | collect (of : Filter)
  | object (entries : List (String × Filter))

inductive FilterError where
  | malformed (source : String)
  | noMember (kind name : String)
  | noElement (kind : String)
  | notIterable (kind : String)
  deriving DecidableEq, Repr

def FilterError.message : FilterError → String
  | .malformed source => "not a filter: " ++ source
  | .noMember kind name => "cannot take member " ++ name ++ " of " ++ kind
  | .noElement kind => "cannot take an element of " ++ kind
  | .notIterable kind => "cannot iterate over " ++ kind

namespace Filter

instance : Inhabited Filter := ⟨.identity⟩

/-! ## Running -/

def memberOf (name : String) : Json → Except FilterError Json
  | .object ms => .ok ((Members.find? name ms).getD .null)
  | j => .error (.noMember j.kind name)

def elementOf (index : Int) : Json → Except FilterError Json
  | .array items =>
    let i := if index < 0 then index + items.length else index
    .ok (if i < 0 then .null else (items[i.toNat]?).getD .null)
  | j => .error (.noElement j.kind)

def partsOf : Json → Except FilterError (List Json)
  | .array items => .ok items
  | .object ms => .ok (Members.values ms)
  | j => .error (.notIterable j.kind)

/-- The outputs of `f` for all of the inputs. -/
def forAll (f : Json → Except FilterError (List Json)) :
    List Json → Except FilterError (List Json)
  | [] => .ok []
  | input :: rest => do
    let first ← f input
    let others ← forAll f rest
    .ok (first ++ others)

mutual

/-- The outputs of a filter. -/
def run (input : Json) : Filter → Except FilterError (List Json)
  | .identity => .ok [input]
  | .literal document => .ok [document]
  | .empty => .ok []
  | .member of_ name => do
    let outputs ← run input of_
    outputs.mapM (memberOf name)
  | .element of_ index => do
    let outputs ← run input of_
    outputs.mapM (elementOf index)
  | .each of_ => do
    let outputs ← run input of_
    forAll partsOf outputs
  | .pipe first second => do
    let outputs ← run input first
    forAll (fun output => run output second) outputs
  | .comma first second => do
    let outputs ← run input first
    let others ← run input second
    .ok (outputs ++ others)
  | .collect of_ => do
    let outputs ← run input of_
    .ok [.array outputs]
  | .object entries => do
    let objects ← runEntries input entries
    .ok (objects.map fun ms => .object (Members.ofList ms))

/-- The objects of all combinations of outputs; the first entry varies slowest. -/
def runEntries (input : Json) :
    List (String × Filter) → Except FilterError (List (List (String × Json)))
  | [] => .ok [[]]
  | (name, f) :: rest => do
    let outputs ← run input f
    -- Every output of this entry is paired with all combinations of the rest.
    let others ← runEntries input rest
    .ok (outputs.flatMap fun output => others.map fun ms => (name, output) :: ms)

end

/-! ## Reading -/

/-- A part of a filter at the start of a text, and what is left of the text. -/
abbrev Reader (α : Type) := List Char → Option (α × List Char)

def skipBlank (cs : List Char) : List Char :=
  cs.dropWhile Char.isWhitespace

/-- The rest behind a character, which may have blanks in front. -/
def symbol? (c : Char) (cs : List Char) : Option (List Char) :=
  match skipBlank cs with
  | d :: rest => if c = d then some rest else none
  | [] => none

def isNameStart (c : Char) : Bool :=
  c.isAlpha || c == '_'

def isNamePart (c : Char) : Bool :=
  c.isAlphanum || c == '_'

def name? (cs : List Char) : Option (String × List Char) :=
  match cs with
  | c :: rest =>
    if isNameStart c then
      some (String.ofList (c :: rest.takeWhile isNamePart), rest.dropWhile isNamePart)
    else none
  | [] => none

/-- A text in quotes, with its quotes, and what is behind it. -/
def quoted? : List Char → Option (List Char × List Char)
  | [] => none
  | '"' :: rest => some (['"'], rest)
  | '\\' :: c :: rest => do
    let (text, rest) ← quoted? rest
    some ('\\' :: c :: text, rest)
  | c :: rest => do
    let (text, rest) ← quoted? rest
    some (c :: text, rest)

def string? (cs : List Char) : Option (String × List Char) :=
  match cs with
  | '"' :: rest => do
    let (text, rest) ← quoted? rest
    match Json.parse (String.ofList ('"' :: text)) with
    | .ok (.string s) => some (s, rest)
    | _ => none
  | _ => none

/-- The characters that a number is written with, as far as they reach. -/
def numberText (cs : List Char) : List Char × List Char :=
  let whole := cs.takeWhile Char.isDigit
  let rest := cs.dropWhile Char.isDigit
  let (fraction, rest) :=
    match rest with
    | '.' :: tail => ('.' :: tail.takeWhile Char.isDigit, tail.dropWhile Char.isDigit)
    | _ => ([], rest)
  let (power, rest) :=
    match rest with
    | c :: tail =>
      if c = 'e' ∨ c = 'E' then
        let (sign, tail) :=
          match tail with
          | '+' :: tail => (['+'], tail)
          | '-' :: tail => (['-'], tail)
          | _ => ([], tail)
        (c :: (sign ++ tail.takeWhile Char.isDigit), tail.dropWhile Char.isDigit)
      else ([], rest)
    | [] => ([], rest)
  (whole ++ fraction ++ power, rest)

def number? (cs : List Char) : Option (Json.Number × List Char) :=
  let (text, rest) := numberText cs
  if text.isEmpty then none
  else if text.all Char.isDigit ∧ Decimal.digitsValue text < twoTo 63 then
    some (.int (Decimal.digitsValue text), rest)
  else
    match Json.parse (String.ofList text) with
    | .ok (.number n) => some (n, rest)
    | _ => none

/-- The number with the other sign; an integer stays one if it has less than 64 bits. -/
def negate : Json.Number → Json.Number
  | .int n => if n.natAbs < twoTo 63 then .int (-n) else .float (-Json.Number.toFloat (.int n))
  | .float x => .float (-x)

/-- A position, with its sign. -/
def integer? (cs : List Char) : Option (Int × List Char) :=
  let (negative, cs) :=
    match skipBlank cs with
    | '-' :: rest => (true, rest)
    | cs => (false, cs)
  let digits := cs.takeWhile Char.isDigit
  if digits.isEmpty then none
  else
    let n : Int := Decimal.digitsValue digits
    some (if negative then -n else n, cs.dropWhile Char.isDigit)

/-- What may follow a term, each turn taking at least a character. -/
def suffixes (fuel : Nat) (f : Filter) (cs : List Char) : Option (Filter × List Char) :=
  match fuel with
  | 0 => some (f, cs)
  | fuel + 1 =>
    match skipBlank cs with
    | '.' :: rest => do
      let (name, rest) ← name? rest
      suffixes fuel (.member f name) rest
    | '[' :: rest =>
      match symbol? ']' rest with
      | some rest => suffixes fuel (.each f) rest
      | none => do
        let (index, rest) ← integer? rest
        let rest ← symbol? ']' rest
        suffixes fuel (.element f index) rest
    | _ => some (f, cs)

/-- Parts that are joined by a character, each turn taking at least that character. -/
def joined (separator : Char) (join : Filter → Filter → Filter) (next : Reader Filter)
    (fuel : Nat) (first : Filter) : Reader Filter := fun cs =>
  match fuel, symbol? separator cs with
  | fuel + 1, some rest => do
    let (second, rest) ← next rest
    joined separator join next fuel (join first second) rest
  | _, _ => some (first, cs)

def separated (separator : Char) (join : Filter → Filter → Filter) (next : Reader Filter) :
    Reader Filter := fun cs => do
  let (first, rest) ← next cs
  joined separator join next rest.length first rest

/-- The word of a filter without parts. -/
def word? (name : String) : Option Filter :=
  if name = "empty" then some .empty
  else if name = "null" then some (.literal .null)
  else if name = "true" then some (.literal (.bool true))
  else if name = "false" then some (.literal (.bool false))
  else none

def key? (cs : List Char) : Option (String × List Char) :=
  (name? cs).or (string? cs)

def entry? (value : Reader Filter) : Reader (String × Filter) := fun cs => do
  let (name, rest) ← key? (skipBlank cs)
  let rest ← symbol? ':' rest
  let (f, rest) ← value rest
  some ((name, f), rest)

/-- The entries of an object behind the first one. -/
def moreEntries (value : Reader Filter) (fuel : Nat) : Reader (List (String × Filter)) :=
  fun cs =>
    match symbol? '\x7d' cs, fuel with
    | some rest, _ => some ([], rest)
    | none, 0 => none
    | none, fuel + 1 => do
      let rest ← symbol? ',' cs
      let (entry, rest) ← entry? value rest
      let (entries, rest) ← moreEntries value fuel rest
      some (entry :: entries, rest)

def entries? (value : Reader Filter) : Reader (List (String × Filter)) := fun cs =>
  match symbol? '\x7d' cs with
  | some rest => some ([], rest)
  | none => do
    let (entry, rest) ← entry? value cs
    let (entries, rest) ← moreEntries value rest.length rest
    some (entry :: entries, rest)

/-- What a term starts with, where `whole` reads what stands in brackets and `value` what stands in
an object. -/
def primary (whole value : Reader Filter) : Reader Filter := fun cs =>
  match skipBlank cs with
  | [] => none
  | '.' :: rest =>
    match name? rest with
    | some (name, rest) => some (.member .identity name, rest)
    | none => some (.identity, rest)
  | '(' :: rest => do
    let (f, rest) ← whole rest
    let rest ← symbol? ')' rest
    some (f, rest)
  | '[' :: rest =>
    match symbol? ']' rest with
    | some rest => some (.literal (.array []), rest)
    | none => do
      let (f, rest) ← whole rest
      let rest ← symbol? ']' rest
      some (.collect f, rest)
  | '\x7b' :: rest => do
    let (entries, rest) ← entries? value rest
    some (.object entries, rest)
  | '"' :: rest => do
    let (s, rest) ← string? ('"' :: rest)
    some (.literal (.string s), rest)
  | '-' :: rest => do
    let (n, rest) ← number? (skipBlank rest)
    some (.literal (.number (negate n)), rest)
  | c :: rest =>
    if c.isDigit then do
      let (n, rest) ← number? (c :: rest)
      some (.literal (.number n), rest)
    else do
      let (name, rest) ← name? (c :: rest)
      let f ← word? name
      some (f, rest)

/-- A term with what follows it. -/
def term (whole value : Reader Filter) : Reader Filter := fun cs => do
  let (f, rest) ← primary whole value cs
  suffixes rest.length f rest

/-- A filter, with brackets nested less deeply than `depth`; inside an object commas belong to the
object. -/
def pipeline : Nat → Bool → Reader Filter
  | 0, _ => fun _ => none
  | depth + 1, commas =>
    let term := term (pipeline depth true) (pipeline depth false)
    separated '|' .pipe (if commas then separated ',' .comma term else term)

/-- The filter that a text writes. -/
def parse (source : String) : Except FilterError Filter :=
  let cs := source.toList
  match pipeline (cs.length + 1) true cs with
  | some (f, rest) =>
    if (skipBlank rest).isEmpty then .ok f else .error (.malformed source)
  | none => .error (.malformed source)

/-- The outputs of the filter that a text writes. -/
def apply (source : String) (input : Json) : Except FilterError (List Json) := do
  let f ← parse source
  f.run input

end Filter

end BoundView
