import BoundView.Files.Basic

/-!
# File patterns

A pattern is matched against paths part by part: `?` stands for a character, `*` for any characters,
`[ab]`, `[a-z]` and `[!a]` for one character of a set or outside of it, and a part `**` for any
number of directories.  Paths are found in alphabetical order.
-/

namespace BoundView.Glob

/-- A member of a set of characters. -/
inductive CharClass where
  | single (c : Char)
  | range (first last : Char)
  deriving DecidableEq, Repr

def CharClass.holds (c : Char) : CharClass → Bool
  | .single d => c == d
  | .range first last => decide (first ≤ c) && decide (c ≤ last)

inductive Atom where
  | char (c : Char)
  | anyChar
  | anyText
  /-- Any number of directories. -/
  | anyDirectories
  | oneOf (classes : List CharClass)
  | noneOf (classes : List CharClass)
  deriving DecidableEq, Repr

/-- What is wrong with a pattern. -/
inductive Flaw where
  /-- Three stars or more. -/
  | stars
  /-- Two stars with something beside them. -/
  | directories
  | set
  deriving DecidableEq, Repr

structure PatternError where
  position : Nat
  flaw : Flaw
  deriving DecidableEq, Repr

def PatternError.message (e : PatternError) : String :=
  "Pattern syntax error near position " ++ toString e.position ++ ": "
    ++ match e.flaw with
      | .stars => "wildcards are either regular `*` or recursive `**`"
      | .directories => "recursive wildcards must form a single path component"
      | .set => "invalid range pattern"

/-! ## Reading patterns -/

/-- The members of a set. -/
def classes : List Char → List CharClass
  | [] => []
  | first :: '-' :: last :: rest => .range first last :: classes rest
  | c :: rest => .single c :: classes rest

/-- The set behind an opening bracket and what is behind the set; a set has at least one character,
so a closing bracket in the first place stands for itself. -/
def set? (cs : List Char) : Option (Atom × List Char) :=
  let (isNegated, body) :=
    match cs with
    | '!' :: rest => (true, rest)
    | cs => (false, cs)
  match body with
  | [] => none
  | first :: rest =>
    match rest.dropWhile (· ≠ ']') with
    | [] => none
    | _ :: behind =>
      let members := classes (first :: rest.takeWhile (· ≠ ']'))
      some (if isNegated then .noneOf members else .oneOf members, behind)

/-- Read a pattern; `before` is the character in front and `position` counts the characters that
were read.  Each turn takes at least a character. -/
def readAtoms (fuel position : Nat) (before : Option Char) (cs : List Char) :
    Except PatternError (List Atom) :=
  match fuel, cs with
  | 0, _ => .ok []
  | _, [] => .ok []
  | fuel + 1, '?' :: rest => do
    let atoms ← readAtoms fuel (position + 1) (some '?') rest
    .ok (.anyChar :: atoms)
  | fuel + 1, '*' :: rest => do
    let count := (rest.takeWhile (· == '*')).length + 1
    let behind := rest.dropWhile (· == '*')
    let next := position + count
    -- The third star is the one at fault.
    if 2 < count then .error ⟨position + 2, .stars⟩
    else if count = 2 then
      if before.isSome ∧ before ≠ some '/' then .error ⟨position - 1, .directories⟩
      else
        match behind with
        | [] => .ok [.anyDirectories]
        | '/' :: behind => do
          let atoms ← readAtoms fuel (next + 1) (some '/') behind
          .ok (.anyDirectories :: atoms)
        | _ => .error ⟨next, .directories⟩
    else do
      let atoms ← readAtoms fuel next (some '*') behind
      .ok (.anyText :: atoms)
  | fuel + 1, '[' :: rest =>
    match set? rest with
    | none => .error ⟨position, .set⟩
    | some (atom, behind) => do
      let atoms ← readAtoms fuel (position + 1 + rest.length - behind.length) (some ']') behind
      .ok (atom :: atoms)
  | fuel + 1, c :: rest => do
    let atoms ← readAtoms fuel (position + 1) (some c) rest
    .ok (.char c :: atoms)

def atoms (text : String) : Except PatternError (List Atom) :=
  readAtoms text.length 0 none text.toList

/-- A part of a pattern. -/
inductive Part where
  /-- A part without wildcards. -/
  | literal (name : String)
  | wild (atoms : List Atom)
  /-- Any number of directories. -/
  | directories
  deriving DecidableEq, Repr

/-- The text that atoms without wildcards write. -/
def literal? : List Atom → Option (List Char)
  | [] => some []
  | .char c :: rest => (literal? rest).map (c :: ·)
  | _ :: _ => none

def Part.ofAtoms (atoms : List Atom) : Part :=
  match literal? atoms with
  | some cs => .literal (String.ofList cs)
  | none => if .anyDirectories ∈ atoms then .directories else .wild atoms

structure Pattern where
  /-- The directory where the pattern starts. -/
  start : String
  parts : List Part
  /-- Whether only directories match. -/
  directoriesOnly : Bool

/-- Read a pattern as a whole, then part by part. -/
def Pattern.parse (text : String) : Except PatternError Pattern := do
  let _ ← atoms text
  let (start, rest) :=
    match text.toList with
    | '/' :: rest => ("/", String.ofList rest)
    | _ => (".", text)
  let parts ← (if rest = "" then [] else FilePath.components rest).mapM fun part =>
    Part.ofAtoms <$> atoms part
  .ok ⟨start, parts, text.toList.getLast? = some '/'⟩

/-! ## Matching -/

/-- Whether a name matches atoms. -/
def matchesName : List Atom → List Char → Bool
  | [], [] => true
  | [], _ :: _ => false
  | .anyText :: rest, [] => matchesName rest []
  | .anyText :: rest, c :: cs => matchesName rest (c :: cs) || matchesName (.anyText :: rest) cs
  | .anyDirectories :: rest, cs => matchesName rest cs
  | .char d :: rest, c :: cs => c == d && matchesName rest cs
  | .anyChar :: rest, _ :: cs => matchesName rest cs
  | .oneOf members :: rest, c :: cs => members.any (·.holds c) && matchesName rest cs
  | .noneOf members :: rest, c :: cs => !members.any (·.holds c) && matchesName rest cs
  | _ :: _, [] => false
termination_by atoms cs => (atoms.length, cs.length)

def Part.matches (part : Part) (name : String) : Bool :=
  match part with
  | .literal own => own = name
  | .wild atoms => matchesName atoms name.toList
  | .directories => false

/-- The directory entries `.` and `..`, which only a part that starts with a point can match. -/
def Part.specials (part : Part) : List String :=
  match part with
  | .wild (.char '.' :: rest) =>
    ["..", "."].filter fun name => matchesName (.char '.' :: rest) name.toList
  | _ => []

/-! ## Finding -/

section

variable {m : Type → Type} [Monad m] (files : FileAccess m)

/-- A path that matches all parts. -/
def found (directoriesOnly : Bool) (path : String) : m (List String) := do
  if directoriesOnly then
    pure (if (← files.kind? path) = some .directory then [path] else [])
  else pure [path]

/-- The path of a name in a directory; the directory of the program itself is left out. -/
def within (directory name : String) : String :=
  if FilePath.isHere directory then name else FilePath.join directory name

/-- The paths that `f` finds for each of the names. -/
def forEach (f : String → m (List String)) : List String → m (List String)
  | [] => pure []
  | name :: rest => do
    let first ← f name
    let others ← forEach f rest
    pure (first ++ others)

def isDirectories : Part → Bool
  | .directories => true
  | _ => false

theorem length_dropWhile_le (f : Part → Bool) (parts : List Part) :
    (parts.dropWhile f).length ≤ parts.length :=
  (List.dropWhile_sublist f).length_le

mutual

/-- What matches the parts below a directory.  `depth` bounds how many directories a part `**`
leads down. -/
def findBelow (directoriesOnly : Bool) (depth : Nat) (directory : String) :
    List Part → m (List String)
  | [] => found files directoriesOnly directory
  | part :: rest => do
    let isDirectory := decide ((← files.kind? directory) = some .directory)
    match part with
    | .literal name =>
      let path := within directory name
      let isThere ←
        if name = "." ∨ name = ".." then pure isDirectory
        else (·.isSome) <$> files.kind? path
      if isThere then findBelow directoriesOnly depth path rest else pure []
    | .wild atoms =>
      if isDirectory then
        -- They come before the names that are listed.
        let specials ← forEach
          (fun name => findBelow directoriesOnly depth (FilePath.join directory name) rest)
          (Part.wild atoms).specials
        let names ← files.names directory
        let sorted := names.mergeSort fun a b => !decide (b < a)
        let matching := sorted.filter (Part.wild atoms).matches
        let others ← forEach
          (fun name => findBelow directoriesOnly depth (within directory name) rest) matching
        pure (specials ++ others)
      else pure []
    | .directories =>
      if isDirectory then
        let names ← files.names directory
        let sorted := names.mergeSort fun a b => !decide (b < a)
        forEach (fun name => descend directoriesOnly depth (within directory name) rest) sorted
      else pure []
termination_by parts => (depth, parts.length, 0)

/-- What matches a part `**` and the parts `rest` behind it, at a path or below it. -/
def descend (directoriesOnly : Bool) (depth : Nat) (path : String) (rest : List Part) :
    m (List String) := do
  let behind := rest.dropWhile isDirectories
  let isDirectory := decide ((← files.kind? path) = some .directory)
  -- The path itself can match the part behind, as any number may be none.
  let here ←
    match _h : behind with
    | [] => pure (if isDirectory then [path] else [])
    | part :: others =>
      if part.matches (FilePath.fileName path) then
        findBelow directoriesOnly depth path others
      else pure []
  match depth with
  | 0 => pure here
  | depth + 1 =>
    if isDirectory then
      let below ← findBelow directoriesOnly depth path (.directories :: behind)
      pure (here ++ below)
    else pure here
termination_by (depth, rest.length, 1)
decreasing_by
  · exact .left _ _ (Nat.lt_succ_self _)
  · have := length_dropWhile_le isDirectories rest
    have : others.length < rest.length := by
      rw [show rest.dropWhile isDirectories = part :: others from _h] at this
      exact this
    exact .right _ (.left _ _ this)

end

/-- How deep directories are nested at most: paths have fewer characters. -/
def maxDepth : Nat := 4096

/-- The paths that match a pattern. -/
def Pattern.find (p : Pattern) : m (List String) :=
  match p.parts with
  | [] => pure []
  | parts => findBelow files p.directoriesOnly maxDepth p.start parts

end

end BoundView.Glob
