import MiniPascal.File.Path

/-!
# File trees

A file tree is a directory with everything below it.  Each operation resolves a
path part by part and either answers or names the reason why it cannot.
-/

namespace MiniPascal

/-- Why an operation on files is refused. -/
inductive FileError where
  | notFound
  | alreadyExists
  | notDirectory
  | isDirectory
  | nameTooLong
  | notText
  | other (message : String)
  deriving DecidableEq

/-- The text of a refusal, with the number of the system error if it is one. -/
def FileError.message : FileError → String
  | .notFound => "No such file or directory (os error 2)"
  | .alreadyExists => "File exists (os error 17)"
  | .notDirectory => "Not a directory (os error 20)"
  | .isDirectory => "Is a directory (os error 21)"
  | .nameTooLong => "File name too long (os error 36)"
  | .notText => "stream did not contain valid UTF-8"
  | .other message => message

/-- A file, or a directory with its entries. -/
inductive Node where
  | file (content : ByteArray)
  | directory (entries : List (String × Node))

namespace Node

/-- The entries of a directory; a file has none. -/
def entries : Node → List (String × Node)
  | .file _ => []
  | .directory entries => entries

/-- What stands at the end of a chain of names. -/
def at? (n : Node) : List String → Option Node
  | [] => some n
  | name :: names =>
      match n.entries.lookup name with
      | some inner => inner.at? names
      | none => none

/-- Put something at the end of a chain of names, in place of what stands there. -/
def put (new : Node) (n : Node) : List String → Node
  | [] => new
  | name :: names =>
      let inner := (n.entries.lookup name).getD (.directory [])
      .directory ((name, put new inner names) :: n.entries.filter fun entry => entry.1 != name)

/-- What was put at a place stands there. -/
theorem at?_put (new n : Node) (names : List String) : (put new n names).at? names = some new := by
  induction names generalizing n with
  | nil => rfl
  | cons name names ih => simp [put, at?, entries, ih]

end Node

/-- A path may be this long, in bytes of its text. -/
def maxPathBytes : Nat :=
  4095

/-- A name may be this long, in bytes of its text. -/
def maxNameBytes : Nat :=
  255

/-- All directories and files below one root, and the place where relative paths start.  A place
is given by the names that lead to it from the root. -/
structure FileTree where
  root : Node
  workingDirectory : List String

namespace FileTree

/-- What stands at a place. -/
def node? (t : FileTree) (place : List String) : Option Node :=
  t.root.at? place

/-- Put something at a place, in place of what stands there. -/
def put (t : FileTree) (place : List String) (node : Node) : FileTree :=
  ⟨Node.put node t.root place, t.workingDirectory⟩

@[simp]
theorem node?_put (t : FileTree) (place : List String) (node : Node) :
    (t.put place node).node? place = some node :=
  Node.at?_put node t.root place

/-- The place where a path starts. -/
def origin (t : FileTree) (path : String) : List String :=
  if Path.isAbsolute path then [] else t.workingDirectory

/-- The place of a name inside a directory. -/
def placeOf (directory : List String) (name : String) : Except FileError (List String) :=
  if maxNameBytes < name.utf8ByteSize then
    .error .nameTooLong
  else
    .ok (directory ++ [name])

/-- Go from a directory to one of its parts, which has to be a directory too. -/
def enter (t : FileTree) (directory : List String) (part : String) :
    Except FileError (List String) :=
  if part = "." then
    .ok directory
  else if part = ".." then
    .ok directory.dropLast
  else do
    let place ← placeOf directory part
    match t.node? place with
    | some (.directory _) => return place
    | some (.file _) => throw .notDirectory
    | none => throw .notFound

/-- Where a path leads: to a directory that exists, or to a name inside one. -/
inductive Target where
  | directory (place : List String)
  | name (directory : List String) (name : String)

/-- Resolve all but the last part of a path.  A path that is too long leads nowhere, whatever its
parts are. -/
def resolve (t : FileTree) (path : String) : Except FileError Target := do
  if maxPathBytes < path.utf8ByteSize then
    throw .nameTooLong
  let start := t.origin path
  let parts := Path.parts path
  match parts.getLast? with
  | none => if path.isEmpty then throw .notFound else return .directory start
  | some last =>
      if last = "." ∨ last = ".." then
        return .directory (← parts.foldlM t.enter start)
      else
        return .name (← parts.dropLast.foldlM t.enter start) last

/-- What a path leads to. -/
def lookup (t : FileTree) (path : String) : Except FileError Node := do
  let place ← match ← t.resolve path with
    | .directory place => pure place
    | .name directory name => placeOf directory name
  match t.node? place with
  | none => throw .notFound
  | some (.directory entries) => return .directory entries
  | some (.file content) =>
      if Path.endsInSlash path then
        throw .notDirectory
      else
        return .file content

/-- The path leads to something. -/
def isPresent (t : FileTree) (path : String) : Bool :=
  (t.lookup path).isOk

/-- Read a whole file as text. -/
def read (t : FileTree) (path : String) : Except FileError String := do
  match ← t.lookup path with
  | .directory _ => throw .isDirectory
  | .file content =>
      match String.fromUTF8? content with
      | some text => return text
      | none => throw .notText

/-- Write a whole file, in place of one that is there.  A slash at the end asks for a directory,
whatever the name before it is. -/
def writeBytes (t : FileTree) (path : String) (content : ByteArray) :
    Except FileError FileTree := do
  match ← t.resolve path with
  | .directory _ => throw .isDirectory
  | .name directory name =>
      if Path.endsInSlash path then
        throw .isDirectory
      else
        let place ← placeOf directory name
        match t.node? place with
        | some (.directory _) => throw .isDirectory
        | _ => return t.put place (.file content)

/-- Write a text as a whole file. -/
def write (t : FileTree) (path text : String) : Except FileError FileTree :=
  t.writeBytes path text.toUTF8

/-- Go from a directory through some parts and make each one that is missing.  What was made stays
also if a later part is refused.  Every part that is made is asked for by itself, so a file in its
way is one that exists already; `made` says whether that has begun. -/
def makeThrough (t : FileTree) (directory : List String) (made : Bool) :
    List String → Except FileError Unit × FileTree
  | [] => (.ok (), t)
  | part :: parts =>
      match t.enter directory part with
      | .ok inner => t.makeThrough inner made parts
      | .error .notFound =>
          (t.put (directory ++ [part]) (.directory [])).makeThrough (directory ++ [part]) true parts
      | .error .notDirectory =>
          (.error (if made || parts.isEmpty then .alreadyExists else .notDirectory), t)
      | .error e => (.error e, t)

/-- Make the directory that a path leads to, and those above it that are missing. -/
def makeDirectories (t : FileTree) (path : String) : Except FileError Unit × FileTree :=
  if maxPathBytes < path.utf8ByteSize then
    (.error .nameTooLong, t)
  else
    t.makeThrough (t.origin path) false ((Path.steps path).map (·.name))

/-- Make the directory that is to hold the end of a path, and those above it that are missing. -/
def makeParent (t : FileTree) (path : String) : Except FileError Unit × FileTree :=
  match Path.parent? path with
  | some parent => t.makeDirectories parent
  | none => (.ok (), t)

/-- The names in a directory, in no particular order. -/
def entryNames (t : FileTree) (path : String) : Except FileError (List String) := do
  match ← t.lookup path with
  | .directory entries => return entries.map (·.1)
  | .file _ => throw .notDirectory

end FileTree

end MiniPascal
