import MiniPascal.Parser.Statement

/-!
# The productions of the grammar

Every production is a parser of its own.  One production may be parsed after
another, also after a fault: each starts where the one before it stopped, on the
level of nesting that it left.
-/

namespace MiniPascal

/-- The nonterminals of the grammar. -/
inductive Production where
  | program
  | block
  | declarations
  | declaration
  | identifierList
  | compound
  | statement
  | assignment
  | conditional
  | repetitive
  | expression
  | simpleExpression
  | term
  | factor
  deriving DecidableEq

namespace Production

/-- The parser of a production.  An expression that stands alone keeps the levels it takes. -/
def parser : Production → Parser Phrase
  | program => return .program (← Parser.program)
  | block => return .block (← Parser.block)
  | declarations => return .declarations (← Parser.declarations)
  | declaration => return .declaration (← Parser.declaration)
  | identifierList => return .identifiers (← Parser.identifierList)
  | compound => return .body (← Parser.compound Parser.statement)
  | statement => return .statement (← Parser.statement)
  | assignment => return .statement (← Parser.assignment)
  | conditional => return .statement (← Parser.conditional Parser.statement)
  | repetitive => return .statement (← Parser.repetitive Parser.statement)
  | expression => return .expression (← Parser.expression)
  | simpleExpression => return .expression (← Parser.simpleExpression Parser.expression)
  | term => return .expression (← Parser.term Parser.expression)
  | factor => return .expression (← Parser.factor Parser.expression)

/-- Parse one production after another, whatever each of them answers. -/
def parseEach : List Production → Progress → List (Except Fault Phrase) × Progress
  | [], s => ([], s)
  | p :: ps, s =>
      let (result, next) := p.parser s
      let (results, after) := parseEach ps next
      (result :: results, after)

end Production

end MiniPascal
