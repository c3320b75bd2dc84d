import MiniPascal.Parser.Expression
import MiniPascal.Token.Scan

/-!
# Parsing declarations and statements

A run of declarations is as long as possible, and an alternative belongs to the
nearest conditional that is still open.  Each nested statement takes a level
and gives it back.
-/

namespace MiniPascal

namespace Parser

/-- The token is a name. -/
def isIdentifier (t : Token) : Bool :=
  t.kind == .identifier

/-- One name of a list and the token behind it. -/
def listedName (kind : FaultKind) : Parser String := do
  let t ← expect isIdentifier kind
  advanceWithin .expectedCommaOrColon
  pure t.lexeme

/-- Names separated by commas. -/
def identifierList : Parser (List String) := do
  let first ← listedName .expectedIdentifier
  let others ← many (isNext (·.isSymbol ",")) do
    advanceWithin .expectedIdentifierAfterComma
    listedName .expectedIdentifierAfterComma
  pure (first :: others)

/-- The name of a built-in type. -/
def typeName : Parser TypeName := do
  let t ← current .expectedType
  match if t.kind == .reservedType then TypeName.ofSpelling? t.lexeme else none with
  | some type => pure type
  | none => refuse .expectedType t

/-- Names, a colon, and their type. -/
def declaration : Parser Declaration := do
  let names ← identifierList
  let _ ← expect (·.isSymbol ":") .expectedCommaOrColon
  advanceWithin .expectedType
  let type ← typeName
  advanceWithin .expectedSemicolon
  pure ⟨names, type⟩

/-- Every declaration that follows, each after its own `var`. -/
def declarations : Parser (List Declaration) :=
  many (isNext (·.isReservedWord "var")) do
    advanceWithin .expectedIdentifierAfterVar
    let d ← declaration
    let _ ← expect (·.isSymbol ";") .expectedSemicolon
    advance
    pure d

/-- A name, the assignment operator, and the value. -/
def assignment : Parser Statement := do
  let target ← expect isIdentifier .expectedIdentifier
  advanceWithin .expectedAssignmentOperator
  let _ ← expect (·.category == .assignmentOperator) .expectedAssignmentOperator
  advanceWithin .expectedExpressionAfterAssignment
  let value ← rootExpression
  let _ ← expect (·.isSymbol ";") .expectedSemicolon
  advance
  pure (.assign target.lexeme value)

/-- Statements between `begin` and `end`. -/
def compound (inner : Parser Statement) : Parser (List Statement) := do
  let _ ← expect (·.isReservedWord "begin") .expectedBegin
  advanceWithin .expectedStatementAfterBegin
  let statements ← many (do return !(← current .expectedEnd).isReservedWord "end") inner
  advance
  pure statements

/-- A condition, a branch, and perhaps an alternative. -/
def conditional (inner : Parser Statement) : Parser Statement := do
  let _ ← expect (·.isReservedWord "if") .expectedIf
  advanceWithin .expectedExpressionAfterIf
  let condition ← rootExpression
  let _ ← expect (·.isReservedWord "then") .expectedThen
  advanceWithin .expectedStatementAfterThen
  let branch ← inner
  if ← isNext (·.isReservedWord "else") then
    advanceWithin .expectedStatementAfterElse
    let alternative ← inner
    pure (.ifThenElse condition branch alternative)
  else
    pure (.ifThen condition branch)

/-- A condition and the statement that it repeats. -/
def repetitive (inner : Parser Statement) : Parser Statement := do
  let _ ← expect (·.isReservedWord "while") .expectedWhile
  advanceWithin .expectedExpressionAfterWhile
  let condition ← rootExpression
  let _ ← expect (·.isReservedWord "do") .expectedDo
  advanceWithin .expectedStatementAfterDo
  let body ← inner
  pure (.whileDo condition body)

/-- A statement, chosen by its first token. -/
def statementBody (inner : Parser Statement) : Parser Statement := do
  let t ← current .invalidCommand
  match t.kind with
  | .identifier => assignment
  | .reservedWord =>
      match t.lexeme with
      | "var" => return .declare (← declarations)
      | "begin" => return .compound (← compound inner)
      | "if" => conditional inner
      | "while" => repetitive inner
      | _ => refuse .invalidCommand t
  | _ => refuse .invalidCommand t

/-- A statement in which at most `levels` are nested. -/
def statementWithin : Nat → Parser Statement
  | 0 => refuseDepth
  | levels + 1 => nested (statementBody (statementWithin levels))

/-- A statement. -/
def statement : Parser Statement :=
  statementWithin maxDepth

/-- Declarations and a compound statement. -/
def block : Parser Block := do
  let declarations ← declarations
  let body ← compound statement
  pure ⟨declarations, body⟩

/-- A whole program, with nothing behind it. -/
def program : Parser Program := do
  let _ ← expect (·.isReservedWord "program") .expectedProgram
  advanceWithin .expectedIdentifierAfterProgram
  let name ← expect isIdentifier .expectedIdentifierAfterProgram
  advanceWithin .expectedSemicolon
  let _ ← expect (·.isSymbol ";") .expectedSemicolon
  advanceWithin .expectedBlockAfterProgramDeclaration
  let block ← block
  let _ ← expect (·.isSymbol ".") .expectedDotAfterProgramBlock
  advance
  match ← peek with
  | some t => refuse .unexpectedTokenAfterProgram t
  | none => pure ⟨name.lexeme, block⟩

end Parser

/-- The program that a sequence of tokens spells, or the first fault in it. -/
def parseTokens (ts : List Token) : Except Fault Program :=
  if ts.isEmpty then
    .error (Fault.unplaced .noTokensToParse)
  else
    (Parser.program (Progress.start ts)).1

/-- The program in a text, or the first fault in it. -/
def parseText (text : String) : Except Fault Program := do
  parseTokens (← scanText text)

end MiniPascal
