import MiniPascal.Token.Category

/-!
# Tokens

A token is a classified lexeme with the place of its last character.
-/

namespace MiniPascal

/-- A classified lexeme; `line` and `column` are those of its last character. -/
structure Token where
  category : Category
  lexeme : String
  line : Nat
  column : Nat
  deriving DecidableEq

namespace Token

/-- The marker for the end of a text. -/
def endOfFile (line column : Nat) : Token :=
  ⟨.endOfFile, "EOF", line, column⟩

/-- The coarse class of a token. -/
def kind (t : Token) : TokenKind :=
  t.category.kind

/-- The label of a token in listings. -/
def label (t : Token) : String :=
  t.category.label

/-- The token has this kind and exactly this spelling. -/
def isSpelled (t : Token) (kind : TokenKind) (lexeme : String) : Bool :=
  t.kind == kind && t.lexeme == lexeme

/-- The token is the symbol `lexeme`. -/
def isSymbol (t : Token) (lexeme : String) : Bool :=
  t.isSpelled .symbol lexeme

/-- The token is the reserved word `word`. -/
def isReservedWord (t : Token) (word : String) : Bool :=
  t.isSpelled .reservedWord word

/-- The listing line of a token, without its line feed; the lexeme is not escaped. -/
def listingLine (t : Token) : String :=
  "<" ++ toString t.kind.ordinal ++ ", " ++ t.label ++ ", '" ++ t.lexeme ++ "'> : <" ++
    toString t.line ++ ", " ++ toString t.column ++ ">"

end Token

end MiniPascal
