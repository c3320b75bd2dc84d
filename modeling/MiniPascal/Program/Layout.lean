import MiniPascal.Program.Basic

/-!
# The canonical layout of programs

Each statement has lines of its own, indented by two blanks for each level.
Operands stand in parentheses where precedence would otherwise give another
tree.  The operand of a sign stands in parentheses unless it is a number or a
name, also where it is a product and would be read the same without them.
-/

namespace MiniPascal

/-- The indentation of one level. -/
def indentStep : Nat :=
  2

/-- A margin of blanks. -/
def margin (width : Nat) : String :=
  String.ofList (List.replicate width ' ')

/-- How tightly an operator binds. -/
def BinaryOperator.precedence (op : BinaryOperator) : Nat :=
  if op.isMultiplicative then 3 else if op.isAdditive then 2 else 1

namespace Expression

/-- How tightly an expression holds together as an operand.  A sign belongs to a whole simple
expression, so it binds like addition. -/
def rank : Expression → Nat
  | .number .. | .ident _ => 4
  | .signed .. => 2
  | .binary op .. => op.precedence

/-- A text, in parentheses if they are needed. -/
def parenthesize (needed : Bool) (text : String) : String :=
  if needed then "(" ++ text ++ ")" else text

/-- A left operand needs parentheses where it binds less tightly; comparisons do not chain. -/
def needsParensLeft (op : BinaryOperator) (lhs : Expression) : Bool :=
  if op.isRelational then lhs.rank ≤ op.precedence else lhs.rank < op.precedence

/-- A right operand needs parentheses also where it binds equally, since operators group to the
left. -/
def needsParensRight (op : BinaryOperator) (rhs : Expression) : Bool :=
  rhs.rank ≤ op.precedence

/-- The operand of a sign needs parentheses unless it is a number or a name. -/
def needsParensSigned (operand : Expression) : Bool :=
  operand.rank < 4

/-- The text of an expression. -/
def layout : Expression → String
  | .number _ numeral => numeral
  | .ident name => name
  | .signed sign operand =>
      sign.spelling ++ parenthesize operand.needsParensSigned operand.layout
  | .binary op lhs rhs =>
      parenthesize (needsParensLeft op lhs) lhs.layout ++ " " ++ op.spelling ++ " " ++
        parenthesize (needsParensRight op rhs) rhs.layout

end Expression

namespace Declaration

/-- The line of a declaration behind the word `var`. -/
def header (d : Declaration) : String :=
  "var " ++ String.intercalate ", " d.names ++ " : " ++ d.type.spelling

/-- The line of a declaration. -/
def layout (indent : Nat) (d : Declaration) : String :=
  margin indent ++ d.header ++ ";\n"

/-- The lines of some declarations. -/
def layoutAll (indent : Nat) (ds : List Declaration) : String :=
  String.join (ds.map (layout indent))

end Declaration

namespace Statement

/-- Where a branch begins: a compound statement is level with its header. -/
def branchIndent (indent : Nat) : Statement → Nat
  | .compound _ => indent
  | _ => indent + indentStep

mutual

/-- The lines of a statement. -/
def layout (indent : Nat) : Statement → String
  | .assign target value => margin indent ++ target ++ " := " ++ value.layout ++ ";\n"
  | .declare ds => Declaration.layoutAll indent ds
  | .compound ss =>
      margin indent ++ "begin\n" ++ String.join (layouts (indent + indentStep) ss) ++
        margin indent ++ "end\n"
  | .ifThen condition branch =>
      margin indent ++ "if " ++ condition.layout ++ " then\n" ++
        branch.layout (branch.branchIndent indent)
  | .ifThenElse condition branch alternative =>
      margin indent ++ "if " ++ condition.layout ++ " then\n" ++
        branch.layout (branch.branchIndent indent) ++ margin indent ++ "else\n" ++
        alternative.layout (alternative.branchIndent indent)
  | .whileDo condition body =>
      margin indent ++ "while " ++ condition.layout ++ " do\n" ++
        body.layout (body.branchIndent indent)

/-- The lines of each of some statements. -/
def layouts (indent : Nat) : List Statement → List String
  | [] => []
  | s :: ss => s.layout indent :: layouts indent ss

end

/-- The lines of some statements. -/
def layoutAll (indent : Nat) (ss : List Statement) : String :=
  String.join (layouts indent ss)

@[simp]
theorem layoutAll_nil (indent : Nat) : layoutAll indent [] = "" := rfl

@[simp]
theorem layoutAll_cons (indent : Nat) (s : Statement) (ss : List Statement) :
    layoutAll indent (s :: ss) = s.layout indent ++ layoutAll indent ss := by
  simp [layoutAll, layouts]

end Statement

/-- The text of a program. -/
def Program.layout (p : Program) : String :=
  "program " ++ p.name ++ ";\n" ++ Declaration.layoutAll 0 p.block.declarations ++ "begin\n" ++
    Statement.layoutAll indentStep p.block.body ++ "end.\n"

end MiniPascal
