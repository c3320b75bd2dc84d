import MiniPascal.Json.Program
import MiniPascal.Token.Basic

/-!
# Reports

A report is one document with the tokens of a text and its program.
-/

namespace MiniPascal

/-- A token as a document. -/
def Token.toJson (t : Token) : Json :=
  .object
    [("type", .ofNat t.kind.ordinal), ("name", .string t.label), ("lexeme", .string t.lexeme),
     ("row", .ofNat t.line), ("column", .ofNat t.column)]

/-- The tokens of a text together with the program that they spell. -/
def Json.report (ts : List Token) (p : Program) : Json :=
  .object [("tokens", .array (ts.map Token.toJson)), ("ast", p.toJson)]

end MiniPascal
