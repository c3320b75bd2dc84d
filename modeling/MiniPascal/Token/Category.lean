/-!
# Classes of tokens

Every token has a fine category, chosen when it is scanned, and through it a
coarse kind and a label.  Words that are not names are listed here; spelling is
case-sensitive.
-/

namespace MiniPascal

/-- Coarse classes of tokens; their order gives the number shown in listings. -/
inductive TokenKind where
  | reservedWord
  | reservedType
  | reservedOperator
  | identifier
  | operator
  | symbol
  | number
  | string
  | endOfFile
  | error
  deriving DecidableEq

/-- The number of a kind in token listings. -/
def TokenKind.ordinal : TokenKind → Nat
  | .reservedWord => 0
  | .reservedType => 1
  | .reservedOperator => 2
  | .identifier => 3
  | .operator => 4
  | .symbol => 5
  | .number => 6
  | .string => 7
  | .endOfFile => 8
  | .error => 9

/-- Fine classes of tokens. -/
inductive Category where
  | reservedWord
  | reservedType
  | reservedOperator
  | identifier
  | arithmeticOperator
  | relationalOperator
  | assignmentOperator
  | symbol
  | integerNumber
  | realNumber
  | string
  | endOfFile
  deriving DecidableEq

/-- Words with a fixed place in the grammar. -/
def reservedWords : List String :=
  ["program", "var", "begin", "end", "if", "else", "then", "do", "while", "for", "to", "downto",
   "repeat", "until", "case", "of", "function", "procedure", "array", "record", "const", "type",
   "file", "set", "goto", "with", "in"]

/-- Names of the built-in types. -/
def reservedTypes : List String :=
  ["integer", "real", "boolean", "char", "string", "double", "byte", "word", "longint",
   "shortint", "single", "extended", "comp", "currency"]

/-- Operators that are spelled as words. -/
def reservedOperators : List String :=
  ["not", "and", "or", "mod"]

namespace Category

/-- The kind that a category belongs to. -/
def kind : Category → TokenKind
  | .reservedWord => .reservedWord
  | .reservedType => .reservedType
  | .reservedOperator => .reservedOperator
  | .identifier => .identifier
  | .arithmeticOperator | .relationalOperator | .assignmentOperator => .operator
  | .symbol => .symbol
  | .integerNumber | .realNumber => .number
  | .string => .string
  | .endOfFile => .endOfFile

/-- The label of a category in token listings. -/
def label : Category → String
  | .reservedWord => "Reserved-word"
  | .reservedType => "Reserved-type"
  | .reservedOperator => "Reserved-operator"
  | .identifier => "Identifier"
  | .arithmeticOperator => "Binary Arithmetic Operator"
  | .relationalOperator => "Relational Operator"
  | .assignmentOperator => "Assignment Operator"
  | .symbol => "Symbol"
  | .integerNumber => "Integer number"
  | .realNumber => "Real number"
  | .string => "String"
  | .endOfFile => "EOF"

/-- The category of a whole word: a reserved word, type or operator, or else a name. -/
def ofWord (word : String) : Category :=
  if word ∈ reservedWords then .reservedWord
  else if word ∈ reservedTypes then .reservedType
  else if word ∈ reservedOperators then .reservedOperator
  else .identifier

end Category

end MiniPascal
