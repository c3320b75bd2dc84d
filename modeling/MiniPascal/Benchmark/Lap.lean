import MiniPascal.Parser.Statement

/-!
# Laps

A lap scans and parses a text once.  How long the two stages took comes from
outside; how many tokens there were does not.
-/

namespace MiniPascal

/-- How long a lap and its two stages took, in milliseconds. -/
structure LapTimes where
  total : Float
  scanning : Float
  parsing : Float

/-- A lap that ran to its end. -/
structure Lap where
  times : LapTimes
  tokens : Nat

/-- A duration in milliseconds, with three places. -/
def threePlaces (duration : Float) : String :=
  let thousandths := (duration * 1000).round.toUInt64.toNat
  let fraction := toString (thousandths % 1000)
  toString (thousandths / 1000) ++ "." ++ String.ofList (List.replicate (3 - fraction.length) '0') ++
    fraction ++ "ms"

/-- The number of tokens in a text that scans and parses, or the first fault in it. -/
def countTokens (source : String) : Except Fault Nat := do
  let ts ← scanText source
  let _ ← parseTokens ts
  return ts.length

end MiniPascal
