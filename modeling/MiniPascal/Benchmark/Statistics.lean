/-!
# Statistics of measurements

The mean adds from left to right and divides once; the extremes pass over what
is not a number.
-/

namespace MiniPascal

/-- The mean of some measurements and their extremes. -/
structure Statistics where
  average : Float
  least : Float
  greatest : Float

namespace Statistics

/-- The smaller of two values, `x` only if it is strictly smaller. -/
def smaller (least x : Float) : Float :=
  if x < least then x else least

/-- The greater of two values, `x` only if it is strictly greater. -/
def greater (greatest x : Float) : Float :=
  if greatest < x then x else greatest

/-- The sum from left to right, starting from minus zero. -/
def sum (values : List Float) : Float :=
  values.foldl (· + ·) (-0.0)

/-- The statistics of some measurements, all of them zero when there are none. -/
def ofList (values : List Float) : Statistics :=
  if values.isEmpty then
    ⟨0, 0, 0⟩
  else
    ⟨sum values / Float.ofNat values.length, values.foldl smaller (1 / 0),
      values.foldl greater (-1 / 0)⟩

end Statistics

end MiniPascal
