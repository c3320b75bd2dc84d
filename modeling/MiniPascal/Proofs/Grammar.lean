import MiniPascal.Proofs.Shape
import MiniPascal.Token.Basic

/-!
# The grammar

Derivations relate a tree to the terminals that it can be written with.  Binary
operators group to the left, so those productions are left recursive; parentheses
leave no node.  A derivation of statements also lists the levels of nesting that it
reaches: the depth of each statement, and for each expression in it the level that
is taken last.
-/

namespace MiniPascal

/-- A token without its place. -/
structure Terminal where
  category : Category
  lexeme : String
  deriving DecidableEq

/-- The terminal of a token. -/
def Token.terminal (t : Token) : Terminal :=
  ⟨t.category, t.lexeme⟩

namespace Terminal

/-- A reserved word. -/
def word (lexeme : String) : Terminal :=
  ⟨.reservedWord, lexeme⟩

/-- A symbol. -/
def symbol (lexeme : String) : Terminal :=
  ⟨.symbol, lexeme⟩

/-- A name. -/
def name (lexeme : String) : Terminal :=
  ⟨.identifier, lexeme⟩

/-- The name of a built-in type. -/
def type (type : TypeName) : Terminal :=
  ⟨.reservedType, type.spelling⟩

/-- A number. -/
def number : NumberKind → String → Terminal
  | .integer, numeral => ⟨.integerNumber, numeral⟩
  | .real, numeral => ⟨.realNumber, numeral⟩

/-- The terminal is spelled as the operator; any category of operators will do. -/
def Denotes (t : Terminal) (op : BinaryOperator) : Prop :=
  t.category.kind = .operator ∧ t.lexeme = op.spelling

theorem Denotes.eq {t : Terminal} {op op' : BinaryOperator} (h : t.Denotes op)
    (h' : t.Denotes op') : op = op' := by
  have hspelling : op.spelling = op'.spelling := h.2.symm.trans h'.2
  cases op <;> cases op' <;> first | rfl | exact absurd hspelling (by decide)

theorem Denotes.ne_symbol {t : Terminal} {op : BinaryOperator} (h : t.Denotes op)
    (lexeme : String) : t ≠ .symbol lexeme := by
  rintro rfl
  exact TokenKind.noConfusion h.1

end Terminal

/-- The operator that is spelled as the sign. -/
def Sign.operator : Sign → BinaryOperator
  | .plus => .add
  | .minus => .sub

namespace BinaryOperator

/-- Every operator belongs to one of three classes. -/
theorem class_cases (op : BinaryOperator) :
    op.isMultiplicative = true ∨ op.isAdditive = true ∨ op.isRelational = true := by
  cases op <;> decide

theorem isRelational_of_isMultiplicative {op : BinaryOperator} (h : op.isMultiplicative = true) :
    op.isRelational = false := by
  cases op <;> first | rfl | exact absurd h (by decide)

theorem isRelational_of_isAdditive {op : BinaryOperator} (h : op.isAdditive = true) :
    op.isRelational = false := by
  cases op <;> first | rfl | exact absurd h (by decide)

theorem isMultiplicative_of_isAdditive {op : BinaryOperator} (h : op.isAdditive = true) :
    op.isMultiplicative = false := by
  cases op <;> first | rfl | exact absurd h (by decide)

end BinaryOperator

namespace Expression

/-- The productions of expressions, from the tightest to the loosest. -/
inductive Layer where
  | factor
  | term
  | simple
  | whole
  deriving DecidableEq

/-- The expression can be written with these terminals as a phrase of the layer. -/
inductive Derives : Layer → Expression → List Terminal → Prop
  | number (kind : NumberKind) (numeral : String) (hnumeral : isNumeral numeral) :
      Derives .factor (.number kind numeral) [.number kind numeral]
  | ident (name : String) :
      Derives .factor (.ident name) [.name name]
  | parens {e : Expression} {ts : List Terminal} (he : Derives .whole e ts) :
      Derives .factor e (.symbol "(" :: (ts ++ [.symbol ")"]))
  | ofFactor {e : Expression} {ts : List Terminal} (he : Derives .factor e ts) :
      Derives .term e ts
  | product {op : BinaryOperator} {t : Terminal} {l r : Expression} {ts us : List Terminal}
      (hop : op.isMultiplicative) (ht : t.Denotes op)
      (hl : Derives .term l ts) (hr : Derives .factor r us) :
      Derives .term (.binary op l r) (ts ++ t :: us)
  | ofTerm {e : Expression} {ts : List Terminal} (he : Derives .term e ts) :
      Derives .simple e ts
  | signed {sign : Sign} {t : Terminal} {e : Expression} {ts : List Terminal}
      (ht : t.Denotes sign.operator) (he : Derives .term e ts) :
      Derives .simple (.signed sign e) (t :: ts)
  | sum {op : BinaryOperator} {t : Terminal} {l r : Expression} {ts us : List Terminal}
      (hop : op.isAdditive) (ht : t.Denotes op)
      (hl : Derives .simple l ts) (hr : Derives .term r us) :
      Derives .simple (.binary op l r) (ts ++ t :: us)
  | ofSimple {e : Expression} {ts : List Terminal} (he : Derives .simple e ts) :
      Derives .whole e ts
  | comparison {op : BinaryOperator} {t : Terminal} {l r : Expression} {ts us : List Terminal}
      (hop : op.isRelational) (ht : t.Denotes op)
      (hl : Derives .simple l ts) (hr : Derives .simple r us) :
      Derives .whole (.binary op l r) (ts ++ t :: us)

/-- How many operators the chains of an expression have; comparisons do not chain. -/
def chained : Expression → Nat
  | .number .. | .ident _ => 0
  | .signed _ operand => operand.chained
  | .binary op lhs rhs => lhs.chained + rhs.chained + if op.isRelational then 0 else 1

/-- The levels that the parts of an expression take when it is written with `ts`: one for each
pair of parentheses and one for each operator of a chain. -/
def innerLevels (e : Expression) (ts : List Terminal) : Nat :=
  ts.count (.symbol "(") + e.chained

/-- The levels that a whole expression takes. -/
def levels (e : Expression) (ts : List Terminal) : Nat :=
  e.innerLevels ts + 1

theorem innerLevels_number (kind : NumberKind) (numeral : String) :
    (number kind numeral).innerLevels [.number kind numeral] = 0 := by
  cases kind <;> simp [innerLevels, chained, Terminal.number, Terminal.symbol]

theorem innerLevels_ident (name : String) : (ident name).innerLevels [.name name] = 0 := by
  simp [innerLevels, chained, Terminal.name, Terminal.symbol]

theorem innerLevels_parens (e : Expression) (ts : List Terminal) :
    e.innerLevels (.symbol "(" :: (ts ++ [.symbol ")"])) = e.levels ts := by
  have hclose : Terminal.symbol ")" ≠ .symbol "(" := by decide
  simp only [levels, innerLevels, List.count_cons_self, List.count_append,
    List.count_cons_of_ne hclose, List.count_nil]
  omega

theorem innerLevels_signed {sign : Sign} {t : Terminal} {op : BinaryOperator}
    (ht : t.Denotes op) (e : Expression) (ts : List Terminal) :
    (signed sign e).innerLevels (t :: ts) = e.innerLevels ts := by
  simp only [innerLevels, chained, List.count_cons_of_ne (ht.ne_symbol "(")]

theorem innerLevels_binary {op : BinaryOperator} {t : Terminal} (ht : t.Denotes op)
    (l r : Expression) (ts us : List Terminal) :
    (binary op l r).innerLevels (ts ++ t :: us) =
      l.innerLevels ts + r.innerLevels us + if op.isRelational then 0 else 1 := by
  simp only [innerLevels, chained, List.count_append, List.count_cons_of_ne (ht.ne_symbol "(")]
  omega

/-- The levels on which a chain ends, counted along the chain. -/
theorem depth_add_innerLevels_binary {op : BinaryOperator} {t : Terminal}
    (hop : op.isRelational = false) (ht : t.Denotes op) (l r : Expression)
    (ts us : List Terminal) (depth : Nat) :
    depth + (binary op l r).innerLevels (ts ++ t :: us) =
      depth + l.innerLevels ts + 1 + r.innerLevels us := by
  rw [innerLevels_binary ht, hop]
  simp only [Bool.false_eq_true, if_false]
  omega

end Expression

namespace Declaration

/-- The terminals of a declaration, without its `var`. -/
def terminals (d : Declaration) : List Terminal :=
  (d.names.map Terminal.name).intersperse (.symbol ",") ++ [.symbol ":", .type d.type]

/-- The terminals of some declarations, each after its own `var`. -/
def terminalsAll (ds : List Declaration) : List Terminal :=
  ds.flatMap fun d => .word "var" :: (d.terminals ++ [.symbol ";"])

/-- Every declaration declares something. -/
def AllNamed (ds : List Declaration) : Prop :=
  ∀ d ∈ ds, d.names ≠ []

end Declaration

namespace Statement

mutual

/-- The statement can be written with these terminals, and reaches these levels. -/
inductive Derives : Statement → List Terminal → List Nat → Prop
  | assign {target : String} {t : Terminal} {value : Expression} {ts : List Terminal}
      (ht : t.category = .assignmentOperator) (hvalue : value.Derives .whole ts) :
      Derives (.assign target value) (.name target :: t :: (ts ++ [.symbol ";"]))
        [1, 1 + value.levels ts]
  | declare {ds : List Declaration} (hne : ds ≠ []) (hnamed : Declaration.AllNamed ds) :
      Derives (.declare ds) (Declaration.terminalsAll ds) [1]
  | compound {ss : List Statement} {ts : List Terminal} {ns : List Nat}
      (hss : DerivesAll ss ts ns) :
      Derives (.compound ss) (.word "begin" :: (ts ++ [.word "end"])) (1 :: ns.map (1 + ·))
  | ifThen {condition : Expression} {branch : Statement} {ts us : List Terminal} {ns : List Nat}
      (hcondition : condition.Derives .whole ts) (hbranch : Derives branch us ns) :
      Derives (.ifThen condition branch) (.word "if" :: (ts ++ .word "then" :: us))
        (1 :: (1 + condition.levels ts) :: ns.map (1 + ·))
  | ifThenElse {condition : Expression} {branch alternative : Statement}
      {ts us vs : List Terminal} {ns ms : List Nat}
      (hcondition : condition.Derives .whole ts) (hbranch : Derives branch us ns)
      (halternative : Derives alternative vs ms) :
      Derives (.ifThenElse condition branch alternative)
        (.word "if" :: (ts ++ .word "then" :: (us ++ .word "else" :: vs)))
        (1 :: (1 + condition.levels ts) :: (ns.map (1 + ·) ++ ms.map (1 + ·)))
  | whileDo {condition : Expression} {body : Statement} {ts us : List Terminal} {ns : List Nat}
      (hcondition : condition.Derives .whole ts) (hbody : Derives body us ns) :
      Derives (.whileDo condition body) (.word "while" :: (ts ++ .word "do" :: us))
        (1 :: (1 + condition.levels ts) :: ns.map (1 + ·))

/-- The statements of a list can be written one after the other with these terminals, and reach
these levels. -/
inductive DerivesAll : List Statement → List Terminal → List Nat → Prop
  | nil : DerivesAll [] [] []
  | cons {s : Statement} {ss : List Statement} {ts us : List Terminal} {ns ms : List Nat}
      (hs : Derives s ts ns) (hss : DerivesAll ss us ms) :
      DerivesAll (s :: ss) (ts ++ us) (ns ++ ms)

end

end Statement

/-- The program can be written with these terminals, and its statements reach these levels. -/
structure Program.Derives (p : Program) (ts : List Terminal) (ns : List Nat) : Prop where
  named : Declaration.AllNamed p.block.declarations
  body : ∃ us, Statement.DerivesAll p.block.body us ns ∧
    ts = .word "program" :: .name p.name :: .symbol ";" ::
      (Declaration.terminalsAll p.block.declarations ++
        .word "begin" :: (us ++ [.word "end", .symbol "."]))

end MiniPascal
