import MiniPascal.Token.Basic

/-!
# Faults

A fault is the one reason why a text is refused: what went wrong, the lexeme to
quote and the place to point at, where there is one.  The kind of a fault names
the point of the grammar that was not met.
-/

namespace MiniPascal

/-- What can be wrong with a text. -/
inductive FaultKind where
  | unknownCharacter
  | stringNotClosed
  | noTokensToParse
  | expectedProgram
  | expectedIdentifierAfterProgram
  | expectedSemicolon
  | expectedBlockAfterProgramDeclaration
  | expectedDotAfterProgramBlock
  | unexpectedTokenAfterProgram
  | expectedIdentifierAfterVar
  | expectedIdentifier
  | expectedIdentifierAfterComma
  | expectedCommaOrColon
  | expectedType
  | expectedBegin
  | expectedStatementAfterBegin
  | expectedEnd
  | invalidCommand
  | expectedAssignmentOperator
  | expectedExpressionAfterAssignment
  | expectedIf
  | expectedExpressionAfterIf
  | expectedThen
  | expectedStatementAfterThen
  | expectedStatementAfterElse
  | expectedWhile
  | expectedExpressionAfterWhile
  | expectedDo
  | expectedStatementAfterDo
  | expectedExpressionAfterOperator
  | expectedTermAfterOperator
  | expectedFactorAfterOperator
  | expectedExpressionAfterOpenParen
  | expectedClosingParen
  | invalidFactor
  | invalidNumber
  | nestingTooDeep
  deriving DecidableEq

namespace FaultKind

/-- The name of a kind in messages. -/
def name : FaultKind → String
  | .unknownCharacter => "UnknownCharacter"
  | .stringNotClosed => "StringNotClosed"
  | .noTokensToParse => "NoTokensToParse"
  | .expectedProgram => "ExpectedProgram"
  | .expectedIdentifierAfterProgram => "ExpectedIdentifierAfterProgram"
  | .expectedSemicolon => "ExpectedSemicolon"
  | .expectedBlockAfterProgramDeclaration => "ExpectedBlockAfterProgramDeclaration"
  | .expectedDotAfterProgramBlock => "ExpectedDotAfterProgramBlock"
  | .unexpectedTokenAfterProgram => "UnexpectedTokenAfterProgram"
  | .expectedIdentifierAfterVar => "ExpectedIdentifierAfterVar"
  | .expectedIdentifier => "ExpectedIdentifier"
  | .expectedIdentifierAfterComma => "ExpectedIdentifierAfterComma"
  | .expectedCommaOrColon => "ExpectedCommaOrColon"
  | .expectedType => "ExpectedType"
  | .expectedBegin => "ExpectedBegin"
  | .expectedStatementAfterBegin => "ExpectedStatementAfterBegin"
  | .expectedEnd => "ExpectedEnd"
  | .invalidCommand => "InvalidCommand"
  | .expectedAssignmentOperator => "ExpectedAssignmentOperator"
  | .expectedExpressionAfterAssignment => "ExpectedExpressionAfterAssignment"
  | .expectedIf => "ExpectedIf"
  | .expectedExpressionAfterIf => "ExpectedExpressionAfterIf"
  | .expectedThen => "ExpectedThen"
  | .expectedStatementAfterThen => "ExpectedStatementAfterThen"
  | .expectedStatementAfterElse => "ExpectedStatementAfterElse"
  | .expectedWhile => "ExpectedWhile"
  | .expectedExpressionAfterWhile => "ExpectedExpressionAfterWhile"
  | .expectedDo => "ExpectedDo"
  | .expectedStatementAfterDo => "ExpectedStatementAfterDo"
  | .expectedExpressionAfterOperator => "ExpectedExpressionAfterOperator"
  | .expectedTermAfterOperator => "ExpectedTermAfterOperator"
  | .expectedFactorAfterOperator => "ExpectedFactorAfterOperator"
  | .expectedExpressionAfterOpenParen => "ExpectedExpressionAfterOpenParen"
  | .expectedClosingParen => "ExpectedClosingParen"
  | .invalidFactor => "InvalidFactor"
  | .invalidNumber => "InvalidNumber"
  | .nestingTooDeep => "NestingTooDeep"

/-- The fault is found while scanning. -/
def isLexical : FaultKind → Bool
  | .unknownCharacter | .stringNotClosed => true
  | _ => false

/-- A hint for the mistakes that most often lead to a kind of fault. -/
def hint : FaultKind → Option String
  | .unknownCharacter => some "This character is not part of the language."
  | .stringNotClosed => some "Strings must be closed with a quote on the same line they start."
  | .noTokensToParse => some "The file contains no program text."
  | .expectedProgram => some "Programs start with: program <name>;"
  | .expectedSemicolon => some "Assignments, declarations and the program header end with ';'."
  | .expectedDotAfterProgramBlock => some "The final 'end' must be followed by '.'."
  | .expectedType => some "Declarations look like: var x, y : integer;"
  | .expectedCommaOrColon => some "Separate names with ',' and end the list with ':'."
  | .expectedEnd => some "Every 'begin' needs a matching 'end'."
  | .expectedAssignmentOperator => some "Assignments use ':=', not '='."
  | .expectedThen => some "Conditionals look like: if <expr> then <statement>"
  | .expectedDo => some "Loops look like: while <expr> do <statement>"
  | .expectedClosingParen => some "Check that parentheses are balanced."
  | .invalidCommand => some "Statements start with an identifier, 'var', 'begin', 'if' or 'while'."
  | .invalidFactor => some "Expected a number, an identifier or '('."
  | .nestingTooDeep =>
      some "Blocks, parentheses and operator chains are nested too deeply; split the statement."
  | _ => none

end FaultKind

/-- A refusal: its kind, the lexeme to quote and the place to point at. -/
structure Fault where
  kind : FaultKind
  lexeme : Option String
  line : Option Nat
  column : Option Nat
  deriving DecidableEq

namespace Fault

/-- A fault that points nowhere. -/
def unplaced (kind : FaultKind) : Fault :=
  ⟨kind, none, none, none⟩

/-- A fault at a line and a column. -/
def placed (kind : FaultKind) (line column : Nat) : Fault :=
  ⟨kind, none, some line, some column⟩

/-- A fault that quotes a lexeme. -/
def quoting (fault : Fault) (lexeme : String) : Fault :=
  ⟨fault.kind, some lexeme, fault.line, fault.column⟩

/-- A fault at a token, quoting its lexeme. -/
def atToken (kind : FaultKind) (t : Token) : Fault :=
  (placed kind t.line t.column).quoting t.lexeme

/-- The kind of a fault followed by the lexeme that it quotes. -/
def summary (fault : Fault) : String :=
  match fault.lexeme with
  | none => fault.kind.name
  | some lexeme => fault.kind.name ++ ": '" ++ lexeme ++ "'"

/-- One line of text; the place is given when both line and column are known. -/
def message (fault : Fault) : String :=
  match fault.line, fault.column with
  | some line, some column =>
      fault.summary ++ " at " ++ toString line ++ ":" ++ toString column
  | _, _ => fault.summary

end Fault

end MiniPascal
