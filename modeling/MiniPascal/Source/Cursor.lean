import MiniPascal.Source.Location

/-!
# Cursors and readers

A cursor is a location together with the text still to be consumed.  A reader
walks a cursor one character at a time and can take back the last successful
read, once.
-/

namespace MiniPascal

/-- A place in a text: where it is, and what remains to be consumed. -/
structure Cursor where
  location : Location
  rest : List Char
  deriving DecidableEq

namespace Cursor

/-- The cursor before the first character of `text`. -/
def ofString (text : String) : Cursor :=
  ⟨Location.start, text.toList⟩

end Cursor

/-- A cursor that remembers where it stood before the last read, while that read can be undone. -/
structure Reader where
  cursor : Cursor
  previous : Option Cursor
  deriving DecidableEq

namespace Reader

/-- A reader at the start of `text`, with nothing to take back. -/
def ofString (text : String) : Reader :=
  ⟨Cursor.ofString text, none⟩

/-- Read one character.  At the end of the text the location settles there and
the reader forgets what it could have taken back. -/
def read (r : Reader) : Option Char × Reader :=
  match r.cursor.rest with
  | [] => (none, ⟨⟨r.cursor.location.settle, []⟩, none⟩)
  | c :: cs => (some c, ⟨⟨r.cursor.location.advance c, cs⟩, some r.cursor⟩)

/-- Take back the last read; without one to take back nothing changes. -/
def unread (r : Reader) : Reader :=
  match r.previous with
  | none => r
  | some cursor => ⟨cursor, none⟩

/-- Line and column of the character consumed last. -/
def position (r : Reader) : Nat × Nat :=
  (r.cursor.location.line, r.cursor.location.column)

end Reader

end MiniPascal
