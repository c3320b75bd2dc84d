import MiniPascal.Benchmark.Statistics
import MiniPascal.Session

/-!
# Measuring scripts

A script is warmed up by laps that do not count and then measured by laps that
do.  The first fault ends it.
-/

namespace MiniPascal

/-- The laps that count, first to last. -/
structure Samples where
  laps : List Lap

namespace Samples

/-- The tokens in the last lap, none without laps. -/
def tokens (s : Samples) : Nat :=
  match s.laps.getLast? with
  | some lap => lap.tokens
  | none => 0

/-- How long the laps took. -/
def totals (s : Samples) : List Float :=
  s.laps.map (·.times.total)

/-- How long scanning took in each lap. -/
def scannings (s : Samples) : List Float :=
  s.laps.map (·.times.scanning)

/-- How long parsing took in each lap. -/
def parsings (s : Samples) : List Float :=
  s.laps.map (·.times.parsing)

end Samples

namespace Session

/-- Run a number of laps over a text after those in `past`, the last one first, up to the first
fault. -/
def runLaps (source : String) (past : List Lap) : Nat → Session (Except Fault (List Lap))
  | 0 => pure (.ok past.reverse)
  | n + 1 =>
      .lap source fun answer =>
        match answer with
        | .error fault => pure (.error fault)
        | .ok latest => runLaps source (latest :: past) n

/-- Warm up on a text and then measure it. -/
def measure (source : String) (iterations warmup : Nat) : Session (Except Fault Samples) := do
  match ← runLaps source [] warmup with
  | .error fault => pure (.error fault)
  | .ok _ =>
      match ← runLaps source [] iterations with
      | .error fault => pure (.error fault)
      | .ok laps => pure (.ok ⟨laps⟩)

end Session

end MiniPascal
