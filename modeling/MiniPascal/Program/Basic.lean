/-!
# Programs

The tree of a program: declarations, statements and expressions in the order in
which they are written.  Number literals keep their digits as text.
-/

namespace MiniPascal

/-- The built-in types. -/
inductive TypeName where
  | integer
  | real
  | boolean
  | char
  | string
  | double
  | byte
  | word
  | longInt
  | shortInt
  | single
  | extended
  | comp
  | currency
  deriving DecidableEq

namespace TypeName

/-- Every built-in type. -/
def all : List TypeName :=
  [integer, real, boolean, char, string, double, byte, word, longInt, shortInt, single, extended,
   comp, currency]

/-- How a type is written. -/
def spelling : TypeName → String
  | integer => "integer"
  | real => "real"
  | boolean => "boolean"
  | char => "char"
  | string => "string"
  | double => "double"
  | byte => "byte"
  | word => "word"
  | longInt => "longint"
  | shortInt => "shortint"
  | single => "single"
  | extended => "extended"
  | comp => "comp"
  | currency => "currency"

/-- The type that is written so. -/
def ofSpelling? (text : String) : Option TypeName :=
  all.find? fun type => type.spelling == text

end TypeName

/-- The sign in front of a term. -/
inductive Sign where
  | plus
  | minus
  deriving DecidableEq

/-- How a sign is written. -/
def Sign.spelling : Sign → String
  | .plus => "+"
  | .minus => "-"

/-- Operators between two operands. -/
inductive BinaryOperator where
  | add
  | sub
  | mul
  | div
  | eq
  | ne
  | lt
  | le
  | gt
  | ge
  deriving DecidableEq

namespace BinaryOperator

/-- Every binary operator. -/
def all : List BinaryOperator :=
  [add, sub, mul, div, eq, ne, lt, le, gt, ge]

/-- How an operator is written. -/
def spelling : BinaryOperator → String
  | add => "+"
  | sub => "-"
  | mul => "*"
  | div => "/"
  | eq => "="
  | ne => "<>"
  | lt => "<"
  | le => "<="
  | gt => ">"
  | ge => ">="

/-- The operator that is written so. -/
def ofSpelling? (text : String) : Option BinaryOperator :=
  all.find? fun op => op.spelling == text

/-- Operators between factors. -/
def isMultiplicative : BinaryOperator → Bool
  | mul | div => true
  | _ => false

/-- Operators between terms. -/
def isAdditive : BinaryOperator → Bool
  | add | sub => true
  | _ => false

/-- Operators that compare. -/
def isRelational : BinaryOperator → Bool
  | eq | ne | lt | le | gt | ge => true
  | _ => false

end BinaryOperator

/-- Whether a number is written with a point. -/
inductive NumberKind where
  | integer
  | real
  deriving DecidableEq

/-- A numeral consists of digits and at most one point. -/
def isNumeral (text : String) : Bool :=
  let cs := text.toList
  !cs.isEmpty && cs.all (fun c => c.isDigit || c == '.') && cs.count '.' ≤ 1

/-- Expressions. -/
inductive Expression where
  | number (kind : NumberKind) (numeral : String)
  | ident (name : String)
  | signed (sign : Sign) (operand : Expression)
  | binary (op : BinaryOperator) (lhs rhs : Expression)
  deriving DecidableEq

/-- Some names and their common type. -/
structure Declaration where
  names : List String
  type : TypeName
  deriving DecidableEq

/-- Statements. -/
inductive Statement where
  | assign (target : String) (value : Expression)
  | declare (declarations : List Declaration)
  | compound (statements : List Statement)
  | ifThen (condition : Expression) (branch : Statement)
  | ifThenElse (condition : Expression) (branch alternative : Statement)
  | whileDo (condition : Expression) (body : Statement)

/-- Declarations and the statements that follow them. -/
structure Block where
  declarations : List Declaration
  body : List Statement

/-- A whole program. -/
structure Program where
  name : String
  block : Block

mutual

/-- The two statements are the same tree. -/
def Statement.same : Statement → Statement → Bool
  | .assign x e, .assign y f => x == y && e == f
  | .declare ds, .declare es => ds == es
  | .compound ss, .compound ts => Statement.sameList ss ts
  | .ifThen c s, .ifThen d t => c == d && s.same t
  | .ifThenElse c s u, .ifThenElse d t v => c == d && s.same t && u.same v
  | .whileDo c s, .whileDo d t => c == d && s.same t
  | _, _ => false

/-- The two lists hold the same trees in the same order. -/
def Statement.sameList : List Statement → List Statement → Bool
  | [], [] => true
  | s :: ss, t :: ts => s.same t && Statement.sameList ss ts
  | _, _ => false

end

mutual

theorem Statement.same_iff (s t : Statement) : s.same t = true ↔ s = t := by
  match s, t with
  | .compound ss, .compound ts => simp [Statement.same, Statement.sameList_iff ss ts]
  | .ifThen c s, .ifThen d t => simp [Statement.same, Statement.same_iff s t]
  | .ifThenElse c s u, .ifThenElse d t v =>
      simp [Statement.same, Statement.same_iff s t, Statement.same_iff u v, and_assoc]
  | .whileDo c s, .whileDo d t => simp [Statement.same, Statement.same_iff s t]
  | .assign x e, t => cases t <;> simp [Statement.same]
  | .declare ds, t => cases t <;> simp [Statement.same]
  | .compound ss, .assign .. | .compound ss, .declare .. | .compound ss, .ifThen ..
  | .compound ss, .ifThenElse .. | .compound ss, .whileDo .. => simp [Statement.same]
  | .ifThen c s, .assign .. | .ifThen c s, .declare .. | .ifThen c s, .compound ..
  | .ifThen c s, .ifThenElse .. | .ifThen c s, .whileDo .. => simp [Statement.same]
  | .ifThenElse c s u, .assign .. | .ifThenElse c s u, .declare ..
  | .ifThenElse c s u, .compound .. | .ifThenElse c s u, .ifThen ..
  | .ifThenElse c s u, .whileDo .. => simp [Statement.same]
  | .whileDo c s, .assign .. | .whileDo c s, .declare .. | .whileDo c s, .compound ..
  | .whileDo c s, .ifThen .. | .whileDo c s, .ifThenElse .. => simp [Statement.same]

theorem Statement.sameList_iff (ss ts : List Statement) :
    Statement.sameList ss ts = true ↔ ss = ts := by
  match ss, ts with
  | [], [] => simp [Statement.sameList]
  | [], _ :: _ => simp [Statement.sameList]
  | _ :: _, [] => simp [Statement.sameList]
  | s :: ss, t :: ts =>
      simp [Statement.sameList, Statement.same_iff s t, Statement.sameList_iff ss ts]

end

instance : DecidableEq Statement := fun s t =>
  decidable_of_iff (s.same t = true) (Statement.same_iff s t)

deriving instance DecidableEq for Block

deriving instance DecidableEq for Program

/-- A program or a part of one. -/
inductive Phrase where
  | program (p : Program)
  | block (b : Block)
  | declarations (ds : List Declaration)
  | declaration (d : Declaration)
  | identifiers (names : List String)
  | body (statements : List Statement)
  | statement (s : Statement)
  | expression (e : Expression)
  deriving DecidableEq

end MiniPascal
