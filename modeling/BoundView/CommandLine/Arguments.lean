/-!
# Command-line arguments

A command is named first and followed by its options.  An option is written `--name value`,
`--name=value`, `-n value`, `-nvalue` or `-n=value`; only `--input` takes several values at once.
What starts with a hyphen is never the value of an option, except a hyphen alone.
-/

namespace BoundView.CommandLine

inductive Flag where
  | jsonPointer
  | jqExpr
  | input
  | out
  | patch
  | fire
  deriving DecidableEq, Repr

namespace Flag

def longName : Flag → String
  | .jsonPointer => "json-pointer"
  | .jqExpr => "jq-expr"
  | .input => "input"
  | .out => "out"
  | .patch => "patch"
  | .fire => "fire"

def shortName? : Flag → Option Char
  | .input => some 'i'
  | .out => some 'o'
  | _ => none

/-- Whether the option takes all values that follow it. -/
def takesMany : Flag → Bool
  | .input => true
  | _ => false

/-- Whether the option may be given more than once. -/
def repeats : Flag → Bool
  | .input => true
  | .patch => true
  | .fire => true
  | _ => false

end Flag

inductive UsageError where
  | noCommand
  | unknownCommand (name : String)
  | unexpectedArgument (argument : String)
  | missingValue (flag : Flag)
  | repeated (flag : Flag)
  /-- No input is given. -/
  | missingInput
  deriving DecidableEq, Repr

def UsageError.message : UsageError → String
  | .noCommand => "a command is required: describe or render"
  | .unknownCommand name => "unrecognized subcommand '" ++ name ++ "'"
  | .unexpectedArgument argument => "unexpected argument '" ++ argument ++ "' found"
  | .missingValue flag => "a value is required for '--"
      ++ flag.longName ++ "' but none was supplied"
  | .repeated flag => "the argument '--" ++ flag.longName ++ "' cannot be used multiple times"
  | .missingInput => "the required argument '--input' was not provided"

/-- Where the bundles come from. -/
structure InputSettings where
  /-- Selects a part of each document. -/
  pointer? : Option String
  /-- Is applied to each document; every output is a bundle. -/
  filter? : Option String
  /-- Paths and file patterns. -/
  paths : List String
  deriving DecidableEq, Repr

inductive Command where
  /-- Print a summary of each bundle's model. -/
  | describe (input : InputSettings) (out? : Option String)
  /-- Mount each bundle's view, apply patches, fire handlers, and print what comes of it. -/
  | render (input : InputSettings) (patches targets : List String) (out? : Option String)
  deriving DecidableEq, Repr

inductive Invocation where
  | run (command : Command)
  | version
  | help
  deriving DecidableEq, Repr

/-- An option and the values that it was given at one place. -/
abbrev Occurrence := Flag × List String

namespace Arguments

/-- Whether an argument is the name of an option rather than a value. -/
def isFlagLike (argument : String) : Bool :=
  match argument.toList with
  | '-' :: _ :: _ => true
  | _ => false

/-- What an argument names. -/
inductive Name where
  | flag (f : Flag)
  | help
  | unknown

/-- The name of an option and the value that is attached to it. -/
def splitName (flags : List Flag) (argument : String) : Name × Option String :=
  match argument.toList with
  | '-' :: '-' :: cs =>
    let name := String.ofList (cs.takeWhile (· ≠ '='))
    let value? := match cs.dropWhile (· ≠ '=') with
      | _ :: value => some (String.ofList value)
      | [] => none
    if name = "help" ∧ value?.isNone then (.help, none)
    else
      match flags.find? fun f => f.longName = name with
      | some f => (.flag f, value?)
      | none => (.unknown, none)
  | '-' :: c :: cs =>
    if c = 'h' then (.help, none)
    else
      match flags.find? fun f => f.shortName? = some c with
      | some f =>
        let value? := match cs with
          | [] => none
          -- The equals sign is left out.
          | '=' :: value => some (String.ofList value)
          | value => some (String.ofList value)
        (.flag f, value?)
      | none => (.unknown, none)
  | _ => (.unknown, none)

/-- Whether an option may be given these values after what was given before. -/
def accept (before : List Occurrence) (f : Flag) (values : List String) :
    Except UsageError Occurrence :=
  if values.isEmpty then .error (.missingValue f)
  else if f = .out ∧ values = [""] then .error (.missingValue f)
  else if !f.repeats ∧ (before.any fun occurrence => occurrence.1 = f) then .error (.repeated f)
  else .ok (f, values)

/-- The values that are not attached to an option, and the arguments behind them. -/
def valuesOf (f : Flag) (arguments : List String) : List String × List String :=
  if f.takesMany then
    (arguments.takeWhile fun a => !isFlagLike a, arguments.dropWhile fun a => !isFlagLike a)
  else
    match arguments with
    | a :: rest => if isFlagLike a then ([], a :: rest) else ([a], rest)
    | [] => ([], [])

theorem length_valuesOf_le (f : Flag) (arguments : List String) :
    (valuesOf f arguments).2.length ≤ arguments.length := by
  unfold valuesOf
  split
  · exact (List.dropWhile_sublist _).length_le
  · split
    · split <;> simp
    · simp

/-- Read options; `none` where help is asked for. -/
def readOptions (flags : List Flag) (before : List Occurrence) :
    List String → Except UsageError (Option (List Occurrence))
  | [] => .ok (some before)
  | argument :: rest =>
    if argument = "--" then
      match rest with
      | [] => .ok (some before)
      -- What follows is no option, and there are no other arguments.
      | extra :: _ => .error (.unexpectedArgument extra)
    else if isFlagLike argument then
      match splitName flags argument with
      | (.help, _) => .ok none
      | (.unknown, _) => .error (.unexpectedArgument argument)
      | (.flag f, some value) => do
        let occurrence ← accept before f [value]
        readOptions flags (before ++ [occurrence]) rest
      | (.flag f, none) => do
        let occurrence ← accept before f (valuesOf f rest).1
        readOptions flags (before ++ [occurrence]) (valuesOf f rest).2
    else .error (.unexpectedArgument argument)
termination_by arguments => arguments.length
decreasing_by
  · exact Nat.lt_succ_self _
  · exact Nat.lt_succ_of_le (length_valuesOf_le f rest)

/-- All values of an option. -/
def allOf (f : Flag) (given : List Occurrence) : List String :=
  (given.filter fun occurrence => occurrence.1 = f).flatMap Prod.snd

def inputOf (given : List Occurrence) : Except UsageError InputSettings :=
  match allOf .input given with
  | [] => .error .missingInput
  | paths => .ok ⟨(allOf .jsonPointer given).head?, (allOf .jqExpr given).head?, paths⟩

def describeFlags : List Flag :=
  [.jsonPointer, .jqExpr, .input, .out]

def renderFlags : List Flag :=
  [.jsonPointer, .jqExpr, .input, .patch, .fire, .out]

def readDescribe (arguments : List String) : Except UsageError Invocation := do
  match ← readOptions describeFlags [] arguments with
  | none => .ok .help
  | some given =>
    let input ← inputOf given
    .ok (.run (.describe input (allOf .out given).head?))

def readRender (arguments : List String) : Except UsageError Invocation := do
  match ← readOptions renderFlags [] arguments with
  | none => .ok .help
  | some given =>
    let input ← inputOf given
    .ok (.run (.render input (allOf .patch given) (allOf .fire given) (allOf .out given).head?))

/-- What `help` is asked about: nothing, or one command. -/
def readHelp : List String → Except UsageError Invocation
  | [] => .ok .help
  | name :: rest =>
    if name = "describe" ∨ name = "render" ∨ name = "help" then
      match rest with
      | [] => .ok .help
      | extra :: _ => .error (.unknownCommand extra)
    else .error (.unknownCommand name)

/-- An option that stands where the command should. -/
def readLeadingOption (argument : String) : Except UsageError Invocation :=
  if argument = "--version" then .ok .version
  else if argument = "--help" then .ok .help
  else
    match argument.toList with
    | '-' :: 'V' :: _ => .ok .version
    | '-' :: 'h' :: _ => .ok .help
    | _ => .error (.unexpectedArgument argument)

/-- What the arguments ask for. -/
def read : List String → Except UsageError Invocation
  | [] => .error .noCommand
  | first :: rest =>
    if first = "describe" then readDescribe rest
    else if first = "render" then readRender rest
    else if first = "help" then readHelp rest
    else if isFlagLike first then readLeadingOption first
    else .error (.unknownCommand first)

end Arguments

end BoundView.CommandLine
