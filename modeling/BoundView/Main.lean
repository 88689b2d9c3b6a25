import BoundView.CommandLine.Run

/-!
# The program

The command line over the files of the system.
-/

namespace BoundView

/-- Why an operation on files failed. -/
def FileProblem.ofError : IO.Error → FileProblem
  | .noFileOrDirectory _ _ _ => .notFound
  | .alreadyExists _ _ _ => .exists_
  | .inappropriateType _ _ _ => .notDirectory
  | e => .other (toString e)

def attempt {α : Type} (action : IO α) : IO (Except FileProblem α) := do
  match ← action.toBaseIO with
  | .ok a => pure (.ok a)
  | .error e => pure (.error (FileProblem.ofError e))

/-- What stands at a path of the system. -/
def systemKind? (path : String) : IO (Option FileKind) := do
  let place := (← IO.currentDir) / path
  if ← place.isDir then pure (some .directory)
  else if ← place.pathExists then pure (some .file)
  else pure none

def systemFiles : FileAccess IO where
  kind? := systemKind?
  names path := do
    let entries ← ((← IO.currentDir) / path).readDir
    pure (entries.toList.map (·.fileName))
  read path := do
    if (← systemKind? path) = some .directory then pure (.error .isDirectory)
    else attempt (IO.FS.readFile path)
  write path text := do
    if (← systemKind? path) = some .directory then pure (.error .isDirectory)
    else attempt (IO.FS.writeFile path text)
  makeDirectories path := attempt (IO.FS.createDirAll path)

end BoundView

def main (arguments : List String) : IO UInt32 := do
  let outcome ← BoundView.CommandLine.run BoundView.systemFiles arguments
  (← IO.getStdout).putStr outcome.output
  (← IO.getStderr).putStr outcome.errors
  pure (UInt32.ofNat outcome.code)
