/-!
# JSON documents

The values of JSON, and their text with two spaces of indentation.  Objects keep
their fields in order, and only quotes, backslashes and control characters are
escaped in strings.
-/

namespace MiniPascal

/-- A JSON value; a number is kept as it is written. -/
inductive Json where
  | null
  | number (digits : String)
  | string (text : String)
  | array (items : List Json)
  | object (fields : List (String × Json))

namespace Json

/-- A whole number. -/
def ofNat (n : Nat) : Json :=
  .number (toString n)

/-- An array of strings. -/
def ofStrings (texts : List String) : Json :=
  .array (texts.map .string)

/-- A digit of a number written in base sixteen. -/
def hexDigit (n : Nat) : Char :=
  Nat.digitChar (n % 16)

/-- A character inside a quoted string. -/
def escape (c : Char) : List Char :=
  match c with
  | '"' => ['\\', '"']
  | '\\' => ['\\', '\\']
  | '\x08' => ['\\', 'b']
  | '\t' => ['\\', 't']
  | '\n' => ['\\', 'n']
  | '\x0c' => ['\\', 'f']
  | '\r' => ['\\', 'r']
  | c =>
      if c.toNat < 0x20 then
        ['\\', 'u', '0', '0', hexDigit (c.toNat / 16), hexDigit c.toNat]
      else
        [c]

/-- A text between quotes. -/
def quote (text : String) : String :=
  "\"" ++ String.ofList (text.toList.flatMap escape) ++ "\""

/-- The start of a line at a depth of nesting. -/
def lineStart (depth : Nat) : String :=
  "\n" ++ String.ofList (List.replicate (2 * depth) ' ')

/-- Parts between brackets, each on a line of its own; without parts the brackets stand
together. -/
def bracket (left right : String) (depth : Nat) (parts : List String) : String :=
  if parts.isEmpty then
    left ++ right
  else
    left ++ lineStart (depth + 1) ++ String.intercalate ("," ++ lineStart (depth + 1)) parts ++
      lineStart depth ++ right

mutual

/-- The text of a value that stands at a depth of nesting. -/
def renderAt (depth : Nat) : Json → String
  | .null => "null"
  | .number digits => digits
  | .string text => quote text
  | .array items => bracket "[" "]" depth (renderItems (depth + 1) items)
  | .object fields => bracket "\x7b" "\x7d" depth (renderFields (depth + 1) fields)

/-- The text of each item of an array. -/
def renderItems (depth : Nat) : List Json → List String
  | [] => []
  | item :: items => item.renderAt depth :: renderItems depth items

/-- The text of each field of an object. -/
def renderFields (depth : Nat) : List (String × Json) → List String
  | [] => []
  | (name, value) :: fields =>
      (quote name ++ ": " ++ value.renderAt depth) :: renderFields depth fields

end

/-- The text of a whole document. -/
def render (document : Json) : String :=
  document.renderAt 0

end Json

end MiniPascal
