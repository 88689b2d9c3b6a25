/-!
# Files

What a program does with files, so that it can run over real ones and over files in memory.
-/

namespace BoundView

/-- Why something cannot be done with a file. -/
inductive FileProblem where
  | notFound
  | exists_
  | notDirectory
  | isDirectory
  /-- The bytes of the file are no text. -/
  | notText
  | other (message : String)
  deriving DecidableEq, Repr

def FileProblem.message : FileProblem → String
  | .notFound => "No such file or directory (os error 2)"
  | .exists_ => "File exists (os error 17)"
  | .notDirectory => "Not a directory (os error 20)"
  | .isDirectory => "Is a directory (os error 21)"
  | .notText => "stream did not contain valid UTF-8"
  | .other message => message

inductive FileKind where
  | file
  | directory
  deriving DecidableEq, Repr

/-- Access to files by their paths, with the effects of `m`. -/
structure FileAccess (m : Type → Type) where
  /-- What stands at a path, if anything. -/
  kind? : String → m (Option FileKind)
  /-- The names in a directory. -/
  names : String → m (List String)
  read : String → m (Except FileProblem String)
  write : String → String → m (Except FileProblem Unit)
  /-- Make a directory, and those that it is in, unless they are there. -/
  makeDirectories : String → m (Except FileProblem Unit)

namespace FilePath

/-- The parts of a path between slashes, at least one. -/
def parts : List Char → List (List Char)
  | [] => [[]]
  | '/' :: rest => [] :: parts rest
  | c :: rest =>
    match parts rest with
    | [] => [[c]]
    | first :: others => (c :: first) :: others

/-- The parts of a path, without the empty one behind a slash at its end. -/
def components (path : String) : List String :=
  let all := (parts path.toList).map String.ofList
  if all.getLast? = some "" then all.dropLast else all

/-- The path of a name in a directory. -/
def join (directory name : String) : String :=
  if directory.toList.getLast? = some '/' then directory ++ name else directory ++ "/" ++ name

/-- The last part of a path. -/
def fileName (path : String) : String :=
  ((components path).filter (· ≠ "")).getLast?.getD ""

/-- A part that leads nowhere: an empty one, or a point that is not the first part. -/
def meaningful : List String → List String
  | [] => []
  | first :: rest => first :: rest.filter fun part => part ≠ "" ∧ part ≠ "."

/-- Whether a path leads to the directory of the program itself, as `.` and `./.` do. -/
def isHere (path : String) : Bool :=
  meaningful (components path) = ["."]

/-- The path of the directory that a path leads into; it is empty for a mere name. -/
def parent (path : String) : String :=
  String.intercalate "/" (meaningful (components path)).dropLast

end FilePath

end BoundView
