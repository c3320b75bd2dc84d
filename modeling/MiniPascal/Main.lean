import MiniPascal.Command.Benchmark
import MiniPascal.Command.Reformat
import Std.Time

/-!
# The programs

The first argument names a program, the others are its own.  Sessions are
played against the files and the clock of the machine.
-/

namespace MiniPascal

/-- The reason behind a refusal of the machine. -/
def FileError.ofMachine : IO.Error → FileError
  | .noFileOrDirectory .. => .notFound
  | .alreadyExists .. => .alreadyExists
  | .inappropriateType _ _ "not a directory" => .notDirectory
  | .inappropriateType _ _ "Is a directory" => .isDirectory
  | .invalidArgument _ 36 _ => .nameTooLong
  | e => .other (toString e)

/-- Do something to files, and catch a refusal. -/
def attempted {α : Type} (act : IO α) : IO (Except FileError α) := do
  try
    return .ok (← act)
  catch e =>
    return .error (.ofMachine e)

/-- Time one lap over a text. -/
def timeLap (source : String) : IO (Except Fault Lap) := do
  let start ← IO.monoNanosNow
  match scanText source with
  | .error fault => return .error fault
  | .ok ts => do
      let middle ← IO.monoNanosNow
      match parseTokens ts with
      | .error fault => return .error fault
      | .ok _ => do
          let stop ← IO.monoNanosNow
          let spent := fun (nanoseconds : Nat) => Float.ofNat nanoseconds / 1000000
          return .ok
            ⟨⟨spent (stop - start), spent (middle - start), spent (stop - middle)⟩, ts.length⟩

namespace Session

/-- Play a session against the machine. -/
def perform {α : Type} : Session α → IO α
  | .done a => return a
  | .print text next => do
      IO.print text
      next.perform
  | .warn text next => do
      IO.eprint text
      next.perform
  | .isPresent path next => do
      (next (← attempted (IO.FS.Handle.mk path .read)).isOk).perform
  | .read path next => do
      match ← attempted (IO.FS.readBinFile path) with
      | .error e => (next (.error e)).perform
      | .ok content =>
          match String.fromUTF8? content with
          | some text => (next (.ok text)).perform
          | none => (next (.error .notText)).perform
  | .write path text next => do
      (next (← attempted (IO.FS.writeFile path text))).perform
  | .makeParent path next => do
      let made ← attempted <| match Path.parent? path with
        | some parent => IO.FS.createDirAll parent
        | none => pure ()
      (next made).perform
  | .entryNames path next => do
      let names ← attempted (do
        let directory := (← IO.currentDir) / path
        return (← directory.readDir).toList.map (·.fileName))
      (next names).perform
  | .lap source next => do
      (next (← timeLap source)).perform

end Session

/-- Start a session, or say why there is none. -/
def launch (command : String) (rules : ArgumentRules)
    (session : Except Interruption (Session Nat)) : IO UInt32 := do
  match session with
  | .ok session => return (← session.perform).toUInt32
  | .error .version =>
      IO.println (command ++ " " ++ versionText)
      return 0
  | .error .help =>
      IO.print (rules.usage command)
      return 0
  | .error (.usage e) =>
      IO.eprintln ("error: " ++ e.message)
      return 2

/-- What the machine tells the command that times scripts. -/
def benchmarkSurroundings : IO Benchmark.Surroundings := do
  let now := Std.Time.DateTime.ofTimestampWithZone (← Std.Time.Timestamp.now)
    Std.Time.TimeZone.UTC
  return ⟨toString (← IO.currentDir), now.format "uuuu-MM-dd'_'HH-mm-ss'Z'",
    now.format "uuuu-MM-dd'T'HH:mm:ss'Z'", threePlaces, toString⟩

end MiniPascal

open MiniPascal in
/-- The first argument names the program to run. -/
def main (arguments : List String) : IO UInt32 := do
  match arguments with
  | "tinypas" :: arguments =>
      let listing ← IO.getEnv "TINYPAS_LEX_OUTPUT"
      launch "tinypas" Analyze.rules
        ((Analyze.settings arguments).map fun s => Analyze.run s listing)
  | "tinypas-fmt" :: arguments =>
      launch "tinypas-fmt" Reformat.rules
        ((Reformat.settings arguments).map fun (mode, file) => Reformat.run mode file)
  | "tinypas-bench" :: arguments =>
      let around ← benchmarkSurroundings
      launch "tinypas-bench" Benchmark.rules
        ((Benchmark.settings arguments).map (Benchmark.run around))
  | _ =>
      IO.eprintln "Usage: tinypas|tinypas-fmt|tinypas-bench ARGUMENTS"
      return 2
