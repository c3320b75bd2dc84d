/-!
# Locations in a program text

A location names the character that was consumed last.  A line feed belongs to
the line that it ends, so the step to the next line is taken by the character
that follows it, or by reaching the end of the text.
-/

namespace MiniPascal

/-- Line and column of the last character consumed, and whether it was a line feed. -/
structure Location where
  line : Nat
  column : Nat
  afterLineFeed : Bool
  deriving DecidableEq

namespace Location

/-- The location before the first character of a text. -/
def start : Location :=
  ⟨1, 0, false⟩

/-- The location once `c` has been consumed too. -/
def advance (l : Location) (c : Char) : Location :=
  if l.afterLineFeed then
    ⟨l.line + 1, 1, c == '\n'⟩
  else
    ⟨l.line, l.column + 1, c == '\n'⟩

/-- The location once all of `cs` has been consumed. -/
def advanceAll (l : Location) (cs : List Char) : Location :=
  cs.foldl advance l

/-- The location at the end of a text: a final line feed opens one more, empty line. -/
def settle (l : Location) : Location :=
  if l.afterLineFeed then
    ⟨l.line + 1, 0, false⟩
  else
    l

@[simp]
theorem advanceAll_nil (l : Location) : l.advanceAll [] = l := rfl

@[simp]
theorem advanceAll_cons (l : Location) (c : Char) (cs : List Char) :
    l.advanceAll (c :: cs) = (l.advance c).advanceAll cs := rfl

theorem advanceAll_append (l : Location) (cs ds : List Char) :
    l.advanceAll (cs ++ ds) = (l.advanceAll cs).advanceAll ds := by
  simp [advanceAll, List.foldl_append]

@[simp]
theorem settle_settle (l : Location) : l.settle.settle = l.settle := by
  by_cases h : l.afterLineFeed <;> simp [settle, h]

end Location

end MiniPascal
