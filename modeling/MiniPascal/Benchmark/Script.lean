import MiniPascal.File.Path
import MiniPascal.Session
import MiniPascal.Text.LowerCase

/-!
# Scripts

The scripts of a workspace are the entries of its script directories that end in
`.pas`, ordered by their names.
-/

namespace MiniPascal

/-- A script: its name is that of its file without the extension. -/
structure Script where
  name : String
  path : String
  deriving DecidableEq

namespace Script

/-- The scripts among the entries of a directory. -/
def ofEntries (directory : String) (entries : List String) : List Script :=
  entries.filterMap fun entry =>
    match Path.stemAndExtension entry with
    | (stem, some "pas") => some ⟨stem, Path.join directory entry⟩
    | _ => none

/-- Scripts ordered by name; those of one name keep their order. -/
def sort (scripts : List Script) : List Script :=
  scripts.mergeSort fun a b => decide (a.name ≤ b.name)

/-- The scripts in some directories, each given with its entries in any order. -/
def discover (listings : List (String × List String)) : List Script :=
  sort (listings.flatMap fun (directory, entries) => ofEntries directory entries)

/-- The directories of a workspace that hold scripts. -/
def directories (root : String) (includeDemos : Bool) : List String :=
  Path.join root "benchmark/scripts" :: if includeDemos then [Path.join root "demos"] else []

/-- The scripts that are wanted by name, whatever the case of the letters. -/
def select (wanted : List String) (scripts : List Script) : List Script :=
  scripts.filter fun script => (wanted.map lowerCase).contains (lowerCase script.name)

end Script

namespace Session

/-- The entries of a directory, none if it cannot be listed. -/
def entriesOrNone (directory : String) : Session (List String) :=
  .entryNames directory fun answer =>
    match answer with
    | .ok entries => pure entries
    | .error _ => pure []

/-- The scripts of a workspace. -/
def discoverScripts (root : String) (includeDemos : Bool) : Session (List Script) := do
  let listings ← (Script.directories root includeDemos).mapM fun directory => do
    return (directory, ← entriesOrNone directory)
  return Script.discover listings

end Session

end MiniPascal
