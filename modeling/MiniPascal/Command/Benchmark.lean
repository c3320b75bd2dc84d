import MiniPascal.Benchmark.Measure
import MiniPascal.Benchmark.Script
import MiniPascal.Command.Analyze

/-!
# The command that times scripts

It measures every script that is wanted and writes the results as one document.
A script that fails is reported and leaves the others alone.
-/

namespace MiniPascal

namespace Benchmark

/-- What is to be measured and where the results go. -/
structure Settings where
  tests : List String
  iterations : Nat
  warmup : Nat
  output : Option String
  includeDemos : Bool
  list : Bool

/-- What the command finds outside its arguments: the workspace, the time of day in a file name
and in a document, and how measurements are written. -/
structure Surroundings where
  root : String
  fileTime : String
  documentTime : String
  milliseconds : Float → String
  number : Float → String

/-- The options of the command. -/
def rules : ArgumentRules :=
  ⟨[⟨"test", some 't', .repeated fun _ => true⟩, ⟨"iterations", some 'n', .single acceptsCount⟩,
    ⟨"warmup", some 'w', .single acceptsCount⟩, ⟨"output", some 'o', .single acceptsPath⟩,
    ⟨"include-demos", none, .flag⟩, ⟨"list", none, .flag⟩, ⟨"help", some 'h', .help⟩], 0⟩

/-- The settings that some arguments ask for: a hundred iterations after five for warming up,
unless they say otherwise. -/
def settings (arguments : List String) : Except Interruption Settings := do
  let given ← rules.read arguments
  let count := fun (option : String) (standard : Nat) =>
    ((given.value? option).bind count?).getD standard
  return ⟨given.values "test", count "iterations" 100, count "warmup" 5, given.value? "output",
    given.has "include-demos", given.has "list"⟩

/-- The result of one script. -/
structure Entry where
  name : String
  iterations : Nat
  tokens : Nat
  total : Statistics
  scanning : Statistics
  parsing : Statistics

namespace Entry

/-- The result of a script that was measured. -/
def ofSamples (name : String) (iterations : Nat) (samples : Samples) : Entry :=
  ⟨name, iterations, samples.tokens, Statistics.ofList samples.totals,
    Statistics.ofList samples.scannings, Statistics.ofList samples.parsings⟩

/-- A name in the column of names. -/
def nameColumn (name : String) : String :=
  alignRight 12 name ++ ": "

/-- One line about a result. -/
def summary (around : Surroundings) (e : Entry) : String :=
  nameColumn e.name ++ "total avg=" ++ around.milliseconds e.total.average ++ " min=" ++
    around.milliseconds e.total.least ++ " max=" ++ around.milliseconds e.total.greatest ++ " | lex=" ++
    around.milliseconds e.scanning.average ++ " parse=" ++ around.milliseconds e.parsing.average ++
    " | tokens=" ++ toString e.tokens ++ "\n"

/-- A result as a document. -/
def toJson (around : Surroundings) (e : Entry) : Json :=
  .object
    [("name", .string e.name), ("iterations", .ofNat e.iterations), ("tokens", .ofNat e.tokens),
     ("avg_total_ms", .number (around.number e.total.average)),
     ("min_total_ms", .number (around.number e.total.least)),
     ("max_total_ms", .number (around.number e.total.greatest)),
     ("avg_lex_ms", .number (around.number e.scanning.average)),
     ("avg_parse_ms", .number (around.number e.parsing.average))]

end Entry

/-- The document with all results. -/
def document (around : Surroundings) (entries : List Entry) : Json :=
  .object
    [("timestamp", .string around.documentTime), ("tinypas_version", .string versionText),
     ("benchmarks", .array (entries.map (Entry.toJson around)))]

/-- Why a script has no result. -/
inductive Failure where
  | unreadable (path : String) (e : FileError)
  | faulty (fault : Fault)
  deriving DecidableEq

/-- One line about a script without a result. -/
def Failure.line (name : String) : Failure → String
  | .unreadable path e =>
      Entry.nameColumn name ++ "failed to read " ++ path ++ ": " ++ e.message ++ "\n"
  | .faulty fault => Entry.nameColumn name ++ fault.message ++ "\n"

/-- Measure one script. -/
def measureScript (s : Settings) (script : Script) : Session (Except Failure Entry) := do
  match ← Session.read script.path .done with
  | .error e => return .error (.unreadable script.path e)
  | .ok source =>
      match ← Session.measure source s.iterations s.warmup with
      | .error fault => return .error (.faulty fault)
      | .ok samples => return .ok (Entry.ofSamples script.name s.iterations samples)

/-- Measure some scripts in order: the results, and whether any script failed. -/
def measureAll (around : Surroundings) (s : Settings) :
    List Script → Session (List Entry × Bool)
  | [] => return ([], false)
  | script :: scripts => do
      match ← measureScript s script with
      | .error failure =>
          Session.warn (failure.line script.name) (.done ())
          let (entries, _) ← measureAll around s scripts
          return (entries, true)
      | .ok entry =>
          Session.print (entry.summary around) (.done ())
          let (entries, failed) ← measureAll around s scripts
          return (entry :: entries, failed)

/-- Where the results go. -/
def outputPath (around : Surroundings) (s : Settings) : String :=
  match s.output with
  | some path => path
  | none => Path.join (Path.join around.root "benchmark/results") (around.fileTime ++ ".json")

/-- Measure some scripts and write the results. -/
def measureAndWrite (around : Surroundings) (s : Settings) (scripts : List Script) :
    Session Nat := do
  let (entries, failed) ← measureAll around s scripts
  let path := outputPath around s
  match ← Analyze.writeAt path (document around entries).render with
  | .error e => Session.warn ("Failed to write " ++ path ++ ": " ++ e.message ++ "\n") (.done 1)
  | .ok () =>
      Session.print ("\nSaved results to " ++ path ++ "\n") (.done (if failed then 1 else 0))

/-- One line for each script. -/
def listing (scripts : List Script) : String :=
  "Discovered scripts:\n" ++
    String.join (scripts.map fun script => "- " ++ script.name ++ " (" ++ script.path ++ ")\n")

/-- Run the command; the answer is its exit code. -/
def run (around : Surroundings) (s : Settings) : Session Nat := do
  let scripts ← Session.discoverScripts around.root s.includeDemos
  if s.list then
    Session.print (listing scripts) (.done 0)
  else
    let wanted := if s.tests.isEmpty then scripts else Script.select s.tests scripts
    if !wanted.isEmpty then
      measureAndWrite around s wanted
    else if s.tests.isEmpty then
      Session.warn "No .pas scripts found in benchmark/scripts or demos.\n" (.done 2)
    else
      Session.warn "No matching scripts. Use --list to see available.\n" (.done 2)

end Benchmark

end MiniPascal
