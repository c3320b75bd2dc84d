import MiniPascal.Program.Layout

/-!
# The outline of a program

An outline shows the tree of a program, a line for each node, indented by two
blanks for each level.
-/

namespace MiniPascal

/-- A line of an outline. -/
def outlineLine (depth : Nat) (text : String) : String :=
  margin (2 * depth) ++ text ++ "\n"

/-- The outline of an expression. -/
def Expression.outline (depth : Nat) : Expression → String
  | .number _ numeral => outlineLine depth numeral
  | .ident name => outlineLine depth name
  | .signed sign operand =>
      outlineLine depth ("unary " ++ sign.spelling) ++ operand.outline (depth + 1)
  | .binary op lhs rhs =>
      outlineLine depth op.spelling ++ lhs.outline (depth + 1) ++ rhs.outline (depth + 1)

/-- The outline of some declarations. -/
def Declaration.outlineAll (depth : Nat) (ds : List Declaration) : String :=
  String.join (ds.map fun d => outlineLine depth d.header)

namespace Statement

mutual

/-- The outline of a statement. -/
def outline (depth : Nat) : Statement → String
  | .assign target value => outlineLine depth (":= " ++ target) ++ value.outline (depth + 1)
  | .declare ds => Declaration.outlineAll depth ds
  | .compound ss => outlineLine depth "begin" ++ String.join (outlines (depth + 1) ss)
  | .ifThen condition branch =>
      outlineLine depth "if" ++ condition.outline (depth + 1) ++ outlineLine depth "then" ++
        branch.outline (depth + 1)
  | .ifThenElse condition branch alternative =>
      outlineLine depth "if" ++ condition.outline (depth + 1) ++ outlineLine depth "then" ++
        branch.outline (depth + 1) ++ outlineLine depth "else" ++ alternative.outline (depth + 1)
  | .whileDo condition body =>
      outlineLine depth "while" ++ condition.outline (depth + 1) ++ outlineLine depth "do" ++
        body.outline (depth + 1)

/-- The outline of each of some statements. -/
def outlines (depth : Nat) : List Statement → List String
  | [] => []
  | s :: ss => s.outline depth :: outlines depth ss

end

/-- The outline of some statements. -/
def outlineAll (depth : Nat) (ss : List Statement) : String :=
  String.join (outlines depth ss)

end Statement

/-- The outline of a program. -/
def Program.outline (p : Program) : String :=
  outlineLine 0 ("program " ++ p.name) ++ Declaration.outlineAll 1 p.block.declarations ++
    outlineLine 1 "begin" ++ Statement.outlineAll 2 p.block.body

end MiniPascal
