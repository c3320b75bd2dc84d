/-!
# Paths

A path is a text of parts between slashes.  Empty parts say nothing, apart from
a slash at the start, which makes the path absolute, and one at the end, which
asks for a directory.
-/

namespace MiniPascal

namespace Path

/-- The stretches of a text between slashes. -/
def splitSlashes : List Char → List (List Char)
  | [] => [[]]
  | c :: cs =>
      if c = '/' then
        [] :: splitSlashes cs
      else
        match splitSlashes cs with
        | [] => [[c]]
        | part :: parts => (c :: part) :: parts

/-- The parts of a path that are not empty. -/
def parts (path : String) : List String :=
  ((splitSlashes path.toList).filter fun part => !part.isEmpty).map String.ofList

/-- The path starts at the root of all directories. -/
def isAbsolute (path : String) : Bool :=
  path.toList.head? == some '/'

/-- The path asks for a directory. -/
def endsInSlash (path : String) : Bool :=
  path.toList.getLast? == some '/'

/-- A part that leads somewhere: what it is called, and how many characters of the path lead to
its end. -/
structure Step where
  name : String
  stop : Nat
  deriving DecidableEq

/-- The steps among the stretches of a path that stand behind its first `start` characters.  An
empty stretch leads nowhere, and a dot does only at the very start. -/
def stepsFrom (start : Nat) : List (List Char) → List Step
  | [] => []
  | stretch :: stretches =>
      let stop := start + stretch.length
      let others := stepsFrom (stop + 1) stretches
      if stretch.isEmpty || (stretch == ['.'] && start != 0) then
        others
      else
        ⟨String.ofList stretch, stop⟩ :: others

/-- The steps of a path. -/
def steps (path : String) : List Step :=
  stepsFrom 0 (splitSlashes path.toList)

/-- The path up to the end of a step, as it is written. -/
def upTo (path : String) (step : Step) : String :=
  String.ofList (path.toList.take step.stop)

/-- The path up to its last step but one, if it has as many. -/
def parent? (path : String) : Option String :=
  (steps path).dropLast.getLast?.map (upTo path)

/-- The path to a name inside a directory. -/
def join (directory name : String) : String :=
  directory ++ "/" ++ name

/-- The last part of a path, unless that goes up or stays. -/
def fileName? (path : String) : Option String :=
  match (steps path).getLast? with
  | some step => if step.name = "." ∨ step.name = ".." then none else some step.name
  | none => none

/-- A name cut before its last dot, if there is one: what precedes it and what follows it. -/
def splitLastDot : List Char → Option (List Char × List Char)
  | [] => none
  | c :: cs =>
      match splitLastDot cs with
      | some (stem, extension) => some (c :: stem, extension)
      | none => if c = '.' then some ([], cs) else none

/-- The stem and the extension of a name.  A dot at the start begins no extension. -/
def stemAndExtension (name : String) : String × Option String :=
  match splitLastDot name.toList with
  | some (c :: stem, extension) => (String.ofList (c :: stem), some (String.ofList extension))
  | _ => (name, none)

/-- The extension of the last part of a path. -/
def extension? (path : String) : Option String :=
  (fileName? path).bind fun name => (stemAndExtension name).2

end Path

end MiniPascal
