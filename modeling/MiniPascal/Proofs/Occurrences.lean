import MiniPascal.Proofs.Shape

/-!
# Parts of a program

Statements stand in a program at a depth: one for those directly in its body, and one
more for each compound statement, branch or loop around them.  Their expressions, and
all parts of these, stand in the program too.
-/

namespace MiniPascal

namespace Statement

/-- The statements directly inside a statement. -/
def inner : Statement → List Statement
  | .assign .. | .declare _ => []
  | .compound ss => ss
  | .ifThen _ branch => [branch]
  | .ifThenElse _ branch alternative => [branch, alternative]
  | .whileDo _ body => [body]

/-- The value or the condition of a statement. -/
def root? : Statement → Option Expression
  | .assign _ value => some value
  | .declare _ | .compound _ => none
  | .ifThen condition _ | .ifThenElse condition _ _ | .whileDo condition _ => some condition

end Statement

namespace Program

variable {p : Program}

/-- The statement stands in the program at this depth. -/
inductive HasStatement (p : Program) : Nat → Statement → Prop
  | body {s : Statement} (hs : s ∈ p.block.body) : HasStatement p 1 s
  | inner {depth : Nat} {s t : Statement} (hs : HasStatement p depth s) (ht : t ∈ s.inner) :
      HasStatement p (depth + 1) t

/-- The expression is the value or the condition of a statement, or a part of one. -/
inductive HasExpression (p : Program) : Expression → Prop
  | root {depth : Nat} {s : Statement} {e : Expression} (hs : p.HasStatement depth s)
      (he : s.root? = some e) : HasExpression p e
  | operand {sign : Sign} {e : Expression} (he : HasExpression p (.signed sign e)) :
      HasExpression p e
  | lhs {op : BinaryOperator} {l r : Expression} (he : HasExpression p (.binary op l r)) :
      HasExpression p l
  | rhs {op : BinaryOperator} {l r : Expression} (he : HasExpression p (.binary op l r)) :
      HasExpression p r

/-- The declaration stands in the program, in front of its body or in a statement. -/
def HasDeclaration (p : Program) (d : Declaration) : Prop :=
  d ∈ p.block.declarations ∨ ∃ depth ds, p.HasStatement depth (.declare ds) ∧ d ∈ ds

/-- The statements make up the body of the program or a compound statement in it. -/
def HasStatements (p : Program) (ss : List Statement) : Prop :=
  ss = p.block.body ∨ ∃ depth, p.HasStatement depth (.compound ss)

/-- The name stands in the program: its own, or one that is declared, assigned or used. -/
inductive HasName (p : Program) : String → Prop
  | program : HasName p p.name
  | declared {d : Declaration} {name : String} (hd : p.HasDeclaration d) (hname : name ∈ d.names) :
      HasName p name
  | target {depth : Nat} {name : String} {value : Expression}
      (hs : p.HasStatement depth (.assign name value)) : HasName p name
  | used {name : String} (he : p.HasExpression (.ident name)) : HasName p name

end Program

end MiniPascal
