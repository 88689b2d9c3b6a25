import BoundView.Files.Basic
import BoundView.Members

/-!
# Files in memory

A tree of directories, with the root as the directory in which a program runs.
-/

namespace BoundView

inductive FileTree where
  | file (text : String)
  | directory (entries : List (String × FileTree))

namespace FileTree

def kind : FileTree → FileKind
  | .file _ => .file
  | .directory _ => .directory

/-- What stands at a list of names. -/
def node? : FileTree → List String → Option FileTree
  | t, [] => some t
  | .file _, _ :: _ => none
  | .directory entries, name :: rest => (Members.find? name entries).bind fun t => t.node? rest

/-- Put something at a list of names; directories on the way are made as needed. -/
def put (new : FileTree) : FileTree → List String → FileTree
  | _, [] => new
  | .file text, _ :: _ => .file text
  | .directory entries, name :: rest =>
    let child := (Members.find? name entries).getD (.directory [])
    .directory (Members.set name (put new child rest) entries)

/-- The names that a path leads through, which are there except perhaps the last. -/
def locate (t : FileTree) (names : List String) : List String → Except FileProblem (List String)
  | [] => .ok names
  | part :: rest =>
    match t.node? names with
    | none => .error .notFound
    | some (.file _) => .error .notDirectory
    | some (.directory _) =>
      if part = "" ∨ part = "." then locate t names rest
      else if part = ".." then
        -- Nothing is known about what is above the root.
        if names = [] then .error .notFound else locate t names.dropLast rest
      else locate t (names ++ [part]) rest

/-- The names of a path. -/
def namesOf (t : FileTree) (path : String) : Except FileProblem (List String) :=
  match path.toList with
  | [] => .error .notFound
  | '/' :: _ => .error .notFound
  | cs => t.locate [] ((FilePath.parts cs).map String.ofList)

def lookup (t : FileTree) (path : String) : Except FileProblem FileTree := do
  let names ← t.namesOf path
  match t.node? names with
  | some found => .ok found
  | none => .error .notFound

def read (t : FileTree) (path : String) : Except FileProblem String := do
  match ← t.lookup path with
  | .file text => .ok text
  | .directory _ => .error .isDirectory

/-- Write a file, whose directory is there; a path with a slash at its end names no file. -/
def write (t : FileTree) (path text : String) : Except FileProblem FileTree := do
  if path.toList.getLast? = some '/' then throw .isDirectory
  let names ← t.namesOf path
  match t.node? names.dropLast, t.node? names with
  | none, _ => .error .notFound
  | some (.file _), _ => .error .notDirectory
  | _, some (.directory _) => .error .isDirectory
  | _, _ => .ok (put (.file text) t names)

/-- Make the directories of a path, of which those at `names` are there. -/
def makeFrom (t : FileTree) (names : List String) : List String → Except FileProblem FileTree
  | [] => .ok t
  | part :: rest =>
    if part = "" ∨ part = "." then makeFrom t names rest
    else if part = ".." then makeFrom t names.dropLast rest
    else
      let names := names ++ [part]
      match t.node? names with
      | some (.directory _) => makeFrom t names rest
      | some (.file _) => .error (if rest.isEmpty then .exists_ else .notDirectory)
      | none => makeFrom (put (.directory []) t names) names rest

def makeDirectories (t : FileTree) (path : String) : Except FileProblem FileTree :=
  t.makeFrom [] (FilePath.components path)

/-- The tree of files with these paths. -/
def ofFiles (files : List (String × String)) : FileTree :=
  files.foldl
    (fun t (path, text) => put (.file text) t ((FilePath.components path).filter (· ≠ "")))
    (.directory [])

/-- What a change gives, with the tree left alone where it fails. -/
def change (f : FileTree → Except FileProblem FileTree) :
    StateM FileTree (Except FileProblem Unit) :=
  fun t =>
    match f t with
    | .ok t => (.ok (), t)
    | .error e => (.error e, t)

/-- Access to the files of a tree. -/
def access : FileAccess (StateM FileTree) where
  kind? path := fun t => ((t.lookup path).toOption.map kind, t)
  names path := fun t =>
    match t.lookup path with
    | .ok (.directory entries) => (Members.keys entries, t)
    | _ => ([], t)
  read path := fun t => (t.read path, t)
  write path text := change fun t => t.write path text
  makeDirectories path := change fun t => t.makeDirectories path

end FileTree

end BoundView
