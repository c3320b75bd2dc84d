import MiniPascal.Parser.Basic

/-!
# Parsing expressions

Factors, terms, simple expressions and comparisons, from the tightest to the
loosest.  Parentheses and every operator in a chain take a level of nesting that
is held to the end of the whole expression, so the levels bound all recursion.
-/

namespace MiniPascal

namespace Parser

/-- A number, a name, or an `inner` expression in parentheses. -/
def factor (inner : Parser Expression) : Parser Expression := do
  let t ← current .invalidFactor
  match t.kind with
  | .number =>
      if isNumeral t.lexeme then
        advance
        pure (.number (if t.category == .realNumber then .real else .integer) t.lexeme)
      else
        refuse .invalidNumber t
  | .identifier =>
      advance
      pure (.ident t.lexeme)
  | .symbol =>
      if t.lexeme == "(" then
        advanceWithin .expectedExpressionAfterOpenParen
        let e ← inner
        let _ ← expect (·.isSymbol ")") .expectedClosingParen
        advance
        pure e
      else
        refuse .invalidFactor t
  | _ => refuse .invalidFactor t

/-- Go on from `lhs` through a chain of operators, which group to the left.  No more than
`levels` of them can be taken. -/
def chain (accepts : BinaryOperator → Bool) (kind : FaultKind) (operand : Parser Expression) :
    Nat → Expression → Parser Expression
  | 0, lhs => do
      match ← nextOperator accepts with
      | none => pure lhs
      | some _ => refuseDepth
  | levels + 1, lhs => do
      match ← nextOperator accepts with
      | none => pure lhs
      | some op =>
          descend
          advanceWithin kind
          let rhs ← operand
          chain accepts kind operand levels (.binary op lhs rhs)

/-- Factors joined by multiplication and division. -/
def term (inner : Parser Expression) : Parser Expression := do
  let first ← factor inner
  chain BinaryOperator.isMultiplicative .expectedFactorAfterOperator (factor inner) maxDepth first

/-- The sign of a first term, if it has one. -/
def sign : Parser (Option Sign) := do
  match ← nextOperator BinaryOperator.isAdditive with
  | none => pure none
  | some op =>
      advanceWithin .expectedTermAfterOperator
      pure (some (if op == .sub then .minus else .plus))

/-- Terms joined by addition and subtraction; a sign belongs to the first term. -/
def simpleExpression (inner : Parser Expression) : Parser Expression := do
  let sign ← sign
  let first ← term inner
  chain BinaryOperator.isAdditive .expectedTermAfterOperator (term inner) maxDepth
    (match sign with
      | some sign => .signed sign first
      | none => first)

/-- One simple expression, or two that are compared. -/
def comparison (inner : Parser Expression) : Parser Expression := do
  let lhs ← simpleExpression inner
  match ← nextOperator BinaryOperator.isRelational with
  | none => pure lhs
  | some op =>
      advanceWithin .expectedExpressionAfterOperator
      let rhs ← simpleExpression inner
      pure (.binary op lhs rhs)

/-- An expression in which at most `levels` are nested. -/
def expressionWithin : Nat → Parser Expression
  | 0 => refuseDepth
  | levels + 1 => do
      descend
      comparison (expressionWithin levels)

/-- An expression; it keeps the levels of nesting that it takes. -/
def expression : Parser Expression :=
  expressionWithin maxDepth

/-- An expression that gives its levels back when it ends. -/
def rootExpression : Parser Expression :=
  releasing expression

end Parser

end MiniPascal
