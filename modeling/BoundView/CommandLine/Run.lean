import BoundView.CommandLine.Arguments
import BoundView.Files.Glob
import BoundView.Filter
import BoundView.Json.Printer
import BoundView.Session

/-!
# Running a command

A command reads bundles from files, describes or renders each, and prints the outcome or writes it
to a file.  The first thing that goes wrong ends it.
-/

namespace BoundView.CommandLine

def programName : String :=
  "json-ui"

def versionText : String :=
  programName ++ " 0.1.0"

def helpText : String :=
  "usage: " ++ programName ++ " <describe|render> --input <PATH>... [--json-pointer <POINTER>]"
    ++ " [--jq-expr <FILTER>] [--out <FILE>] [--patch <PATCH>]... [--fire <TAG.PROP>]..."

inductive Failure where
  | pattern (e : Glob.PatternError)
  | noMatch (input : String)
  | unreadable (path : String) (problem : FileProblem)
  | notJson (path : String) (problem : Document.Problem)
  | nothingSelected (pointer path : String)
  | filter (path : String) (e : FilterError)
  | badBundle (path : String) (problem : Document.Problem)
  | processing (path : String) (e : Error)
  | badPatch (problem : Document.Problem)
  | directory (problem : FileProblem)
  | unwritable (path : String) (problem : FileProblem)
  deriving DecidableEq

/-- A failure and its causes, the outermost first. -/
def Failure.message : Failure → String
  | .pattern e => e.message
  | .noMatch input => "glob pattern matched no files: " ++ input
  | .unreadable path problem => "failed to read source file (" ++ path ++ "): " ++ problem.message
  | .notJson path problem =>
    "failed to parse JSON source file (" ++ path ++ "): " ++ problem.reason.message
  | .nothingSelected pointer path => "JSON pointer " ++ pointer ++ " selects nothing in " ++ path
  | .filter path e =>
    "failed to apply jq expression to source file (" ++ path ++ "): " ++ e.message
  | .badBundle path problem => "invalid bundle in " ++ path ++ ": " ++ problem.message
  | .processing path e => "while processing " ++ path ++ ": " ++ e.message
  | .badPatch problem => "invalid --patch: " ++ problem.message
  | .directory problem => problem.message
  | .unwritable path problem => "failed to write " ++ path ++ ": " ++ problem.message

/-! ## Bundles -/

/-- The position that a token of a pointer names: digits without a needless zero or a sign. -/
def position? (token : String) : Option Nat :=
  match token.toList with
  | '+' :: _ => none
  | '0' :: _ :: _ => none
  | _ => arrayIndex? token

def selectStep (token : String) : Json → Option Json
  | .object ms => Members.find? token ms
  | .array items => (position? token).bind fun i => items[i]?
  | _ => none

/-- The part of a document that a pointer selects. -/
def select (pointer : String) (document : Json) : Option Json := do
  let tokens ← Pointer.split pointer
  tokens.foldlM (fun j token => selectStep token j) document

/-- The bundles in the text of a file. -/
def documentsOf (settings : InputSettings) (path source : String) :
    Except Failure (List Json) := do
  let document ← (Json.parse source).mapError (Failure.notJson path)
  let document ←
    match settings.pointer? with
    | none => .ok document
    | some pointer =>
      match select pointer document with
      | some part => .ok part
      | none => .error (.nothingSelected pointer path)
  match settings.filter? with
  | none => .ok [document]
  | some filter => (Filter.apply filter document).mapError (Failure.filter path)

/-- What `process` makes of each bundle in a file. -/
def processSource {α : Type} (settings : InputSettings) (process : Bundle → Except Error α)
    (path source : String) : Except Failure (List α) := do
  let documents ← documentsOf settings path source
  documents.mapM fun document => do
    let bundle ← (Bundle.ofJson document).mapError (Failure.badBundle path)
    (process bundle).mapError (Failure.processing path)

/-- The summary of a bundle's model. -/
def describeBundle (bundle : Bundle) : Except Error String := do
  let schema ← (Session.schemaOf bundle.model).1
  .ok (schema.describe schema.root)

def applyAll (s : Session) : List Patch → Except Error Session
  | [] => .ok s
  | patch :: rest => do
    let (_, _, s) ← s.apply patch
    applyAll s rest

def fireAll (s : Session) : List String → Except Error Session
  | [] => .ok s
  | target :: rest => do
    let (_, s) ← (s.fire target).1
    fireAll s rest

/-- What a bundle shows when patches are applied and then handlers fired. -/
def renderBundle (patches : List Patch) (targets : List String) (bundle : Bundle) :
    Except Error Json := do
  let s ← (Session.start bundle .standard).1
  let s ← applyAll s patches
  let s ← fireAll s targets
  .ok s.output

/-- One output stands for itself, any other number of them for a list. -/
def combine : List Json → Json
  | [output] => output
  | outputs => .array outputs

/-! ## Files -/

/-- What a program leaves behind: its exit code and what it printed. -/
structure Outcome where
  code : Nat
  output : String
  errors : String
  deriving DecidableEq, Repr

section

variable {m : Type → Type} [Monad m] (files : FileAccess m)

/-- Whether an input is a file pattern rather than a path. -/
def isPattern (input : String) : Bool :=
  input.toList.any fun c => c = '*' ∨ c = '?' ∨ c = '[' ∨ c = '\x7b'

/-- The files that an input stands for. -/
def pathsOf (input : String) : ExceptT Failure m (List String) := do
  if isPattern input then
    match Glob.Pattern.parse input with
    | .error e => throw (.pattern e)
    | .ok pattern =>
      let paths ← ExceptT.lift (pattern.find files)
      if paths.isEmpty then throw (.noMatch input)
      pure paths
  else pure [input]

def readSource (path : String) : ExceptT Failure m String := do
  match ← ExceptT.lift (files.read path) with
  | .ok source => pure source
  | .error problem => throw (.unreadable path problem)

/-- What `process` makes of each bundle of the inputs. -/
def processAll {α : Type} (settings : InputSettings) (process : Bundle → Except Error α) :
    ExceptT Failure m (List α) := do
  -- All patterns are resolved before any file is read.
  let paths ← settings.paths.mapM (pathsOf files)
  let results ← paths.flatten.mapM fun path => do
    let source ← readSource files path
    ExceptT.mk (pure (processSource settings process path source))
  pure results.flatten

/-- Write a text to a file, in directories that are made as needed. -/
def writeTo (path text : String) : ExceptT Failure m Unit := do
  let directory := FilePath.parent path
  if directory ≠ "" then
    if let .error problem ← ExceptT.lift (files.makeDirectories directory) then
      throw (.directory problem)
  if let .error problem ← ExceptT.lift (files.write path text) then
    throw (.unwritable path problem)

/-- Print a text, or write it to a file; what is printed. -/
def emit (out? : Option String) (text : String) : ExceptT Failure m String := do
  match out? with
  | none => pure (text ++ "\n")
  | some path => do
    writeTo files path text
    pure ""

def runCommand : Command → ExceptT Failure m String
  | .describe input out? => do
    let lines ← processAll files input describeBundle
    emit files out? (String.intercalate "\n" lines)
  | .render input patches targets out? => do
    -- A faulty patch is reported even where there is no file to render.
    let patches ← ExceptT.mk (pure ((patches.mapM Patch.ofText).mapError Failure.badPatch))
    let outputs ← processAll files input (renderBundle patches targets)
    emit files out? (combine outputs).pretty

/-- Run the program with its arguments. -/
def run (arguments : List String) : m Outcome := do
  match Arguments.read arguments with
  | .error e => pure ⟨2, "", "error: " ++ e.message ++ "\n\n" ++ helpText ++ "\n"⟩
  | .ok .version => pure ⟨0, versionText ++ "\n", ""⟩
  | .ok .help => pure ⟨0, helpText ++ "\n", ""⟩
  | .ok (.run command) =>
    match ← (runCommand files command).run with
    | .ok output => pure ⟨0, output, ""⟩
    | .error failure => pure ⟨1, "", "error: " ++ failure.message ++ "\n"⟩

end

end BoundView.CommandLine
