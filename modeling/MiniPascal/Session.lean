import MiniPascal.Benchmark.Lap
import MiniPascal.File.Tree

/-!
# Sessions

A session is what a command does, one step after the other: it prints, works on
files and times laps, and each answer decides how it goes on.  `run` plays a
session against a world that is itself a value.
-/

namespace MiniPascal

/-- The steps of a command that ends with a value of type `α`. -/
inductive Session (α : Type) where
  /-- The end. -/
  | done (a : α)
  /-- Print on the standard output. -/
  | print (text : String) (next : Session α)
  /-- Print on the standard error output. -/
  | warn (text : String) (next : Session α)
  /-- Ask whether a path leads to something. -/
  | isPresent (path : String) (next : Bool → Session α)
  /-- Read a file. -/
  | read (path : String) (next : Except FileError String → Session α)
  /-- Write a file. -/
  | write (path text : String) (next : Except FileError Unit → Session α)
  /-- Make the directories that lead to a file. -/
  | makeParent (path : String) (next : Except FileError Unit → Session α)
  /-- List a directory. -/
  | entryNames (path : String) (next : Except FileError (List String) → Session α)
  /-- Time a lap over a text. -/
  | lap (source : String) (next : Except Fault Lap → Session α)

/-- What a session works on, and what it has printed. -/
structure World where
  files : FileTree
  /-- The times of each lap, by the number of laps before it. -/
  stopwatch : Nat → LapTimes
  laps : Nat
  output : String
  errors : String

namespace World

/-- A world in which nothing has happened yet. -/
def start (files : FileTree) (stopwatch : Nat → LapTimes) : World :=
  ⟨files, stopwatch, 0, "", ""⟩

/-- The world after an operation on its files, which stay as they are if it is refused. -/
def attempt (w : World) (result : Except FileError FileTree) : Except FileError Unit × World :=
  match result with
  | .ok files => (.ok (), { w with files := files })
  | .error e => (.error e, w)

end World

namespace Session

/-- Go on with what `f` makes of the value at the end. -/
def bind {α β : Type} (f : α → Session β) : Session α → Session β
  | .done a => f a
  | .print text next => .print text (next.bind f)
  | .warn text next => .warn text (next.bind f)
  | .isPresent path next => .isPresent path fun answer => (next answer).bind f
  | .read path next => .read path fun answer => (next answer).bind f
  | .write path text next => .write path text fun answer => (next answer).bind f
  | .makeParent path next => .makeParent path fun answer => (next answer).bind f
  | .entryNames path next => .entryNames path fun answer => (next answer).bind f
  | .lap source next => .lap source fun answer => (next answer).bind f

instance : Monad Session where
  pure := .done
  bind s f := s.bind f

/-- Play a session. -/
def run {α : Type} : Session α → World → α × World
  | .done a, w => (a, w)
  | .print text next, w => next.run { w with output := w.output ++ text }
  | .warn text next, w => next.run { w with errors := w.errors ++ text }
  | .isPresent path next, w => (next (w.files.isPresent path)).run w
  | .read path next, w => (next (w.files.read path)).run w
  | .write path text next, w =>
      (next (w.attempt (w.files.write path text)).1).run (w.attempt (w.files.write path text)).2
  | .makeParent path next, w =>
      (next (w.files.makeParent path).1).run { w with files := (w.files.makeParent path).2 }
  | .entryNames path next, w => (next (w.files.entryNames path)).run w
  | .lap source next, w =>
      (next ((countTokens source).map fun tokens => ⟨w.stopwatch w.laps, tokens⟩)).run
        { w with laps := w.laps + 1 }

end Session

end MiniPascal
