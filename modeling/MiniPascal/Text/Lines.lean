/-!
# The lines of a text

A line ends with a line feed, or with a carriage return and a line feed; a
carriage return that stands elsewhere belongs to its line.  A final line feed
opens no further line.
-/

namespace MiniPascal

/-- The lines of a text, without their ends. -/
def textLines : List Char → List (List Char)
  | [] => []
  | '\n' :: cs => [] :: textLines cs
  | '\r' :: '\n' :: cs => [] :: textLines cs
  | c :: cs =>
      match textLines cs with
      | [] => [[c]]
      | line :: lines => (c :: line) :: lines

/-- A text with every carriage return and line feed replaced by a line feed alone. -/
def joinLineEnds : List Char → List Char
  | [] => []
  | '\r' :: '\n' :: cs => '\n' :: joinLineEnds cs
  | c :: cs => c :: joinLineEnds cs

/-- A text whose lines all end with a line feed alone. -/
def normalizeLineEnds (text : String) : String :=
  String.ofList (joinLineEnds text.toList)

end MiniPascal
