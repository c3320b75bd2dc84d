import MiniPascal.Json.Basic
import MiniPascal.Program.Basic

/-!
# Programs as JSON

A node with alternatives is an object with one field, named for the alternative;
a structure is an object with its parts in order.
-/

namespace MiniPascal

/-- The name of a type in documents. -/
def TypeName.documentName : TypeName → String
  | .integer => "Integer"
  | .real => "Real"
  | .boolean => "Boolean"
  | .char => "Char"
  | .string => "String"
  | .double => "Double"
  | .byte => "Byte"
  | .word => "Word"
  | .longInt => "LongInt"
  | .shortInt => "ShortInt"
  | .single => "Single"
  | .extended => "Extended"
  | .comp => "Comp"
  | .currency => "Currency"

/-- The name of a sign in documents. -/
def Sign.documentName : Sign → String
  | .plus => "Plus"
  | .minus => "Minus"

/-- The name of an operator in documents. -/
def BinaryOperator.documentName : BinaryOperator → String
  | .add => "Add"
  | .sub => "Sub"
  | .mul => "Mul"
  | .div => "Div"
  | .eq => "Eq"
  | .ne => "Ne"
  | .lt => "Lt"
  | .le => "Le"
  | .gt => "Gt"
  | .ge => "Ge"

/-- The name of a kind of number in documents. -/
def NumberKind.documentName : NumberKind → String
  | .integer => "Integer"
  | .real => "Real"

/-- An object with one field, named for the alternative that it holds. -/
def Json.tagged (name : String) (value : Json) : Json :=
  .object [(name, value)]

/-- An expression as a document. -/
def Expression.toJson : Expression → Json
  | .number kind numeral =>
      .tagged "Number"
        (.object [("lexeme", .string numeral), ("kind", .string kind.documentName)])
  | .ident name => .tagged "Ident" (.string name)
  | .signed sign operand =>
      .tagged "Unary"
        (.object [("op", .string sign.documentName), ("operand", operand.toJson)])
  | .binary op lhs rhs =>
      .tagged "Binary"
        (.object [("op", .string op.documentName), ("lhs", lhs.toJson), ("rhs", rhs.toJson)])

/-- A declaration as a document. -/
def Declaration.toJson (d : Declaration) : Json :=
  .object [("names", .ofStrings d.names), ("ty", .string d.type.documentName)]

/-- Declarations as a document. -/
def Declaration.listToJson (ds : List Declaration) : Json :=
  .array (ds.map toJson)

mutual

/-- A statement as a document. -/
def Statement.toJson : Statement → Json
  | .assign target value =>
      .tagged "Assign" (.object [("name", .string target), ("expr", value.toJson)])
  | .declare ds => .tagged "VarDecl" (Declaration.listToJson ds)
  | .compound ss => .tagged "Compound" (.object [("statements", .array (Statement.toJsons ss))])
  | .ifThen condition branch =>
      .tagged "If" (.object
        [("cond", condition.toJson), ("then_branch", branch.toJson), ("else_branch", .null)])
  | .ifThenElse condition branch alternative =>
      .tagged "If" (.object
        [("cond", condition.toJson), ("then_branch", branch.toJson),
         ("else_branch", alternative.toJson)])
  | .whileDo condition body =>
      .tagged "While" (.object [("cond", condition.toJson), ("body", body.toJson)])

/-- Statements as documents. -/
def Statement.toJsons : List Statement → List Json
  | [] => []
  | s :: ss => s.toJson :: Statement.toJsons ss

end

/-- Statements as the body of a compound statement. -/
def Statement.bodyToJson (ss : List Statement) : Json :=
  .object [("statements", .array (Statement.toJsons ss))]

/-- A block as a document. -/
def Block.toJson (b : Block) : Json :=
  .object [("declarations", Declaration.listToJson b.declarations),
    ("body", Statement.bodyToJson b.body)]

/-- A program as a document. -/
def Program.toJson (p : Program) : Json :=
  .object [("name", .string p.name), ("block", p.block.toJson)]

/-- A program or a part of one as a document. -/
def Phrase.toJson : Phrase → Json
  | .program p => p.toJson
  | .block b => b.toJson
  | .declarations ds => Declaration.listToJson ds
  | .declaration d => d.toJson
  | .identifiers names => .ofStrings names
  | .body ss => Statement.bodyToJson ss
  | .statement s => s.toJson
  | .expression e => e.toJson

end MiniPascal
