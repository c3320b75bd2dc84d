import MiniPascal.Fault
import MiniPascal.Program.Basic

/-!
# Parsers

A parser walks a sequence of tokens and answers with a value or the first
fault.  How far it came and how deeply it is nested outlive a fault, so another
parser can go on from there.
-/

namespace MiniPascal

/-- Statements, parentheses and chained operators may be nested this deep. -/
def maxDepth : Nat :=
  128

/-- How far a sequence of tokens has been parsed. -/
structure Progress where
  /-- The tokens still to come. -/
  rest : List Token
  /-- The token consumed last. -/
  last : Option Token
  /-- The levels of nesting taken. -/
  depth : Nat
  deriving DecidableEq

namespace Progress

/-- Nothing of `ts` has been parsed. -/
def start (ts : List Token) : Progress :=
  ⟨ts, none, 0⟩

/-- The fault of needing a token behind the last one; it points at the last one. -/
def exhausted (s : Progress) (kind : FaultKind) : Fault :=
  match s.last with
  | some t => Fault.placed kind t.line t.column
  | none => Fault.unplaced kind

/-- The fault of nesting too deep, at the token to come. -/
def tooDeep (s : Progress) : Fault :=
  match s.rest with
  | t :: _ => Fault.atToken .nestingTooDeep t
  | [] => s.exhausted .nestingTooDeep

end Progress

/-- A parser of values of type `α`. -/
def Parser (α : Type) : Type :=
  Progress → Except Fault α × Progress

namespace Parser

instance : Monad Parser where
  pure a s := (.ok a, s)
  bind p f s :=
    match p s with
    | (.ok a, after) => f a after
    | (.error fault, after) => (.error fault, after)

/-- Refuse, pointing at the token `t`. -/
def refuse {α : Type} (kind : FaultKind) (t : Token) : Parser α := fun s =>
  (.error (Fault.atToken kind t), s)

/-- Refuse because too many levels are nested. -/
def refuseDepth {α : Type} : Parser α := fun s =>
  (.error s.tooDeep, s)

/-- The token to come, if there is one. -/
def peek : Parser (Option Token) := fun s =>
  (.ok s.rest.head?, s)

/-- The token to come; without one `kind` is the fault. -/
def current (kind : FaultKind) : Parser Token := fun s =>
  match s.rest with
  | t :: _ => (.ok t, s)
  | [] => (.error (s.exhausted kind), s)

/-- The token to come, which has to satisfy `accepts`. -/
def expect (accepts : Token → Bool) (kind : FaultKind) : Parser Token := do
  let t ← current kind
  if accepts t then
    pure t
  else
    refuse kind t

/-- Consume a token.  There has to be one: no parser may go on behind the end of the tokens, and one
that tried to would say that there are none to parse. -/
def advance : Parser Unit := fun s =>
  match s.rest with
  | t :: ts => (.ok (), ⟨ts, some t, s.depth⟩)
  | [] => (.error (Fault.unplaced .noTokensToParse), s)

/-- Consume a token that must not be the last one; `kind` is the fault if it is. -/
def advanceWithin (kind : FaultKind) : Parser Unit := do
  let t ← current kind
  advance
  match ← peek with
  | some _ => pure ()
  | none => refuse kind t

/-- The token to come satisfies `accepts`. -/
def isNext (accepts : Token → Bool) : Parser Bool := do
  match ← peek with
  | some t => pure (accepts t)
  | none => pure false

/-- The operator to come, if it is one of those accepted. -/
def nextOperator (accepts : BinaryOperator → Bool) : Parser (Option BinaryOperator) := do
  match ← peek with
  | some t =>
      if t.kind == .operator then
        pure ((BinaryOperator.ofSpelling? t.lexeme).filter accepts)
      else
        pure none
  | none => pure none

/-- Take one level of nesting. -/
def descend : Parser Unit := fun s =>
  if s.depth < maxDepth then
    (.ok (), ⟨s.rest, s.last, s.depth + 1⟩)
  else
    refuseDepth s

/-- Run `p` one level deeper and give the level back, also after a fault. -/
def nested {α : Type} (p : Parser α) : Parser α := fun s =>
  match descend s with
  | (.ok (), inner) =>
      let (result, after) := p inner
      (result, ⟨after.rest, after.last, after.depth - 1⟩)
  | (.error fault, after) => (.error fault, after)

/-- Run `p` and give back all the levels that it took, also after a fault. -/
def releasing {α : Type} (p : Parser α) : Parser α := fun s =>
  let (result, after) := p s
  (result, ⟨after.rest, after.last, s.depth⟩)

/-- Parse an `item` as long as `more` says so, at most `n` times. -/
def manyUpTo {α : Type} (more : Parser Bool) (item : Parser α) : Nat → Parser (List α)
  | 0 => do
      let _ ← more
      pure []
  | n + 1 => do
      if ← more then
        let a ← item
        let as ← manyUpTo more item n
        pure (a :: as)
      else
        pure []

/-- Parse an `item` as long as `more` says so.  Every item has to consume a token, so there are
at most as many items as tokens; behind the last token `more` has to fail or say no. -/
def many {α : Type} (more : Parser Bool) (item : Parser α) : Parser (List α) := fun s =>
  manyUpTo more item s.rest.length s

end Parser

end MiniPascal
