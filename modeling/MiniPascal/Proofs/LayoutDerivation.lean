import MiniPascal.Program.Layout
import MiniPascal.Proofs.Grammar

/-!
# The terminals of a layout

The layout of a program writes down a sequence of terminals.  Parentheses stand
around every operand that would not be a phrase of the layer it stands in, so the
terminals of a well-spelled program derive it.
-/

namespace MiniPascal

/-- The category of an operator between operands. -/
def BinaryOperator.category (op : BinaryOperator) : Category :=
  if op.isRelational then .relationalOperator else .arithmeticOperator

/-- The operator as the layout writes it. -/
def Terminal.operator (op : BinaryOperator) : Terminal :=
  ⟨op.category, op.spelling⟩

/-- The sign of an assignment. -/
def Terminal.becomes : Terminal :=
  ⟨.assignmentOperator, ":="⟩

theorem Terminal.operator_denotes (op : BinaryOperator) : (Terminal.operator op).Denotes op := by
  cases op <;> exact ⟨rfl, rfl⟩

namespace BinaryOperator

theorem precedence_of_isMultiplicative {op : BinaryOperator} (h : op.isMultiplicative = true) :
    op.precedence = 3 :=
  if_pos h

theorem precedence_of_isAdditive {op : BinaryOperator} (h : op.isAdditive = true) :
    op.precedence = 2 := by
  cases op <;> first | rfl | exact absurd h (by decide)

theorem precedence_of_isRelational {op : BinaryOperator} (h : op.isRelational = true) :
    op.precedence = 1 := by
  cases op <;> first | rfl | exact absurd h (by decide)

end BinaryOperator

namespace Expression

/-- Terminals, in parentheses if they are needed. -/
def parenthesizeTerminals (needed : Bool) (ts : List Terminal) : List Terminal :=
  if needed then .symbol "(" :: (ts ++ [.symbol ")"]) else ts

/-- The terminals of the layout of an expression. -/
def terminals : Expression → List Terminal
  | .number kind numeral => [.number kind numeral]
  | .ident name => [.name name]
  | .signed sign operand =>
      .operator sign.operator :: parenthesizeTerminals operand.needsParensSigned operand.terminals
  | .binary op lhs rhs =>
      parenthesizeTerminals (needsParensLeft op lhs) lhs.terminals ++
        .operator op :: parenthesizeTerminals (needsParensRight op rhs) rhs.terminals

/-- The least rank among the expressions that are phrases of a layer without parentheses. -/
def Layer.rank : Layer → Nat
  | .factor => 4
  | .term => 3
  | .simple => 2
  | .whole => 1

/-- A phrase of a layer is a phrase of every looser one. -/
theorem Derives.loosen {k l : Layer} {e : Expression} {ts : List Terminal}
    (h : e.Derives k ts) (hkl : l.rank ≤ k.rank) : e.Derives l ts := by
  have hterm : e.Derives .factor ts → e.Derives .term ts := .ofFactor
  have hsimple : e.Derives .term ts → e.Derives .simple ts := .ofTerm
  have hwhole : e.Derives .simple ts → e.Derives .whole ts := .ofSimple
  cases k <;> cases l <;> simp_all [Layer.rank]

theorem whole_rank_le (e : Expression) : Layer.whole.rank ≤ e.rank := by
  cases e with
  | number | ident | signed => show 1 ≤ _; simp [rank]
  | binary op => cases op <;> exact Nat.le_of_ble_eq_true rfl

/-- The operands of a product are a term and a factor. -/
theorem needsParens_of_isMultiplicative {op : BinaryOperator} (h : op.isMultiplicative = true)
    (lhs rhs : Expression) :
    needsParensLeft op lhs = decide (lhs.rank < Layer.term.rank) ∧
      needsParensRight op rhs = decide (rhs.rank < Layer.factor.rank) := by
  have hrelational := BinaryOperator.isRelational_of_isMultiplicative h
  have hprec := BinaryOperator.precedence_of_isMultiplicative h
  rw [needsParensLeft, needsParensRight, hrelational, hprec]
  constructor
  · rfl
  · show decide (rhs.rank ≤ 3) = decide (rhs.rank < 4)
    exact decide_eq_decide.2 (by omega)

/-- The operands of a sum are a simple expression and a term. -/
theorem needsParens_of_isAdditive {op : BinaryOperator} (h : op.isAdditive = true)
    (lhs rhs : Expression) :
    needsParensLeft op lhs = decide (lhs.rank < Layer.simple.rank) ∧
      needsParensRight op rhs = decide (rhs.rank < Layer.term.rank) := by
  have hrelational := BinaryOperator.isRelational_of_isAdditive h
  have hprec := BinaryOperator.precedence_of_isAdditive h
  rw [needsParensLeft, needsParensRight, hrelational, hprec]
  constructor
  · rfl
  · show decide (rhs.rank ≤ 2) = decide (rhs.rank < 3)
    exact decide_eq_decide.2 (by omega)

/-- The operands of a comparison are simple expressions; comparisons do not chain. -/
theorem needsParens_of_isRelational {op : BinaryOperator} (h : op.isRelational = true)
    (lhs rhs : Expression) :
    needsParensLeft op lhs = decide (lhs.rank < Layer.simple.rank) ∧
      needsParensRight op rhs = decide (rhs.rank < Layer.simple.rank) := by
  have hprec := BinaryOperator.precedence_of_isRelational h
  rw [needsParensLeft, needsParensRight, h, hprec, if_pos rfl]
  constructor
  · show decide (lhs.rank ≤ 1) = decide (lhs.rank < 2)
    exact decide_eq_decide.2 (by omega)
  · show decide (rhs.rank ≤ 1) = decide (rhs.rank < 2)
    exact decide_eq_decide.2 (by omega)

/-- Parentheses make every expression a factor; without them its own rank has to suffice. -/
theorem derives_parenthesizeTerminals {e : Expression} {ts : List Terminal}
    (h : ∀ k : Layer, k.rank ≤ e.rank → e.Derives k ts) (layer : Layer) :
    e.Derives layer (parenthesizeTerminals (decide (e.rank < layer.rank)) ts) := by
  by_cases hrank : e.rank < layer.rank
  · have hfactor : e.Derives .factor (.symbol "(" :: (ts ++ [.symbol ")"])) :=
      .parens (h .whole e.whole_rank_le)
    rw [decide_eq_true hrank]
    exact hfactor.loosen (by cases layer <;> decide)
  · rw [decide_eq_false hrank]
    exact h layer (Nat.le_of_not_lt hrank)

/-- The layout of an expression is a phrase of every layer that its rank allows. -/
theorem derives_terminals {e : Expression} (hspelled : e.isWellSpelled = true) (layer : Layer)
    (hlayer : layer.rank ≤ e.rank) : e.Derives layer e.terminals := by
  induction e generalizing layer with
  | number kind numeral =>
      have hfactor : (Expression.number kind numeral).Derives .factor [.number kind numeral] :=
        .number kind numeral (isNumeral_of_admits hspelled)
      exact hfactor.loosen hlayer
  | ident name =>
      have hfactor : (Expression.ident name).Derives .factor [.name name] := .ident name
      exact hfactor.loosen hlayer
  | signed sign operand ih =>
      have hfactor := derives_parenthesizeTerminals (ih hspelled) .factor
      have hsimple :
          (Expression.signed sign operand).Derives .simple (signed sign operand).terminals :=
        .signed (Terminal.operator_denotes sign.operator) (.ofFactor hfactor)
      exact hsimple.loosen hlayer
  | binary op lhs rhs ihl ihr =>
      obtain ⟨hl, hr⟩ : lhs.isWellSpelled = true ∧ rhs.isWellSpelled = true := by
        simpa [isWellSpelled] using hspelled
      have hlhs := derives_parenthesizeTerminals (ihl hl)
      have hrhs := derives_parenthesizeTerminals (ihr hr)
      have hop := Terminal.operator_denotes op
      have hrank : layer.rank ≤ op.precedence := hlayer
      -- each class of operators has its own production, with the layers of its operands
      rcases op.class_cases with h | h | h
      · obtain ⟨hleft, hright⟩ := needsParens_of_isMultiplicative h lhs rhs
        rw [BinaryOperator.precedence_of_isMultiplicative h] at hrank
        rw [terminals, hleft, hright]
        exact (Derives.product h hop (hlhs .term) (hrhs .factor)).loosen hrank
      · obtain ⟨hleft, hright⟩ := needsParens_of_isAdditive h lhs rhs
        rw [BinaryOperator.precedence_of_isAdditive h] at hrank
        rw [terminals, hleft, hright]
        exact (Derives.sum h hop (hlhs .simple) (hrhs .term)).loosen hrank
      · obtain ⟨hleft, hright⟩ := needsParens_of_isRelational h lhs rhs
        rw [BinaryOperator.precedence_of_isRelational h] at hrank
        rw [terminals, hleft, hright]
        exact (Derives.comparison h hop (hlhs .simple) (hrhs .simple)).loosen hrank

/-- The levels that the layout of an expression takes. -/
def layoutLevels (e : Expression) : Nat :=
  e.levels e.terminals

end Expression

namespace Statement

mutual

/-- The terminals of the layout of a statement. -/
def terminals : Statement → List Terminal
  | .assign target value => .name target :: .becomes :: (value.terminals ++ [.symbol ";"])
  | .declare ds => Declaration.terminalsAll ds
  | .compound ss => .word "begin" :: (terminalsAll ss ++ [.word "end"])
  | .ifThen condition branch =>
      .word "if" :: (condition.terminals ++ .word "then" :: branch.terminals)
  | .ifThenElse condition branch alternative =>
      .word "if" :: (condition.terminals ++
        .word "then" :: (branch.terminals ++ .word "else" :: alternative.terminals))
  | .whileDo condition body =>
      .word "while" :: (condition.terminals ++ .word "do" :: body.terminals)

/-- The terminals of the layouts of some statements. -/
def terminalsAll : List Statement → List Terminal
  | [] => []
  | s :: ss => s.terminals ++ terminalsAll ss

end

mutual

/-- The levels that the layout of a statement reaches. -/
def layoutLevels : Statement → List Nat
  | .assign _ value => [1, 1 + value.layoutLevels]
  | .declare _ => [1]
  | .compound ss => 1 :: (layoutLevelsAll ss).map (1 + ·)
  | .ifThen condition branch =>
      1 :: (1 + condition.layoutLevels) :: branch.layoutLevels.map (1 + ·)
  | .ifThenElse condition branch alternative =>
      1 :: (1 + condition.layoutLevels) ::
        (branch.layoutLevels.map (1 + ·) ++ alternative.layoutLevels.map (1 + ·))
  | .whileDo condition body =>
      1 :: (1 + condition.layoutLevels) :: body.layoutLevels.map (1 + ·)

/-- The levels that the layouts of some statements reach. -/
def layoutLevelsAll : List Statement → List Nat
  | [] => []
  | s :: ss => s.layoutLevels ++ layoutLevelsAll ss

end

end Statement

/-- Well-spelled declarations declare something. -/
theorem Declaration.allNamed_of_isWellSpelled {ds : List Declaration}
    (h : ds.all Declaration.isWellSpelled = true) : Declaration.AllNamed ds := by
  intro d hd
  have hspelled : d.isWellSpelled = true := List.all_eq_true.1 h d hd
  have hnames := (Bool.and_eq_true_iff.1 hspelled).1
  simpa using hnames

namespace Statement

mutual

/-- The layout of a well-spelled statement derives it. -/
theorem derives_terminals : (s : Statement) → s.isWellSpelled = true →
    s.Derives s.terminals s.layoutLevels
  | .assign target value, h => by
      obtain ⟨-, hvalue⟩ := Bool.and_eq_true_iff.1 h
      exact .assign rfl (Expression.derives_terminals hvalue .whole value.whole_rank_le)
  | .declare ds, h => by
      obtain ⟨hne, hspelled⟩ := Bool.and_eq_true_iff.1 h
      exact .declare (by simpa using hne) (Declaration.allNamed_of_isWellSpelled hspelled)
  | .compound ss, h =>
      .compound (derivesAll_terminalsAll ss h)
  | .ifThen condition branch, h => by
      obtain ⟨hcondition, hbranch⟩ := Bool.and_eq_true_iff.1 h
      exact .ifThen (Expression.derives_terminals hcondition .whole condition.whole_rank_le)
        (derives_terminals branch hbranch)
  | .ifThenElse condition branch alternative, h => by
      obtain ⟨hconditional, halternative⟩ := Bool.and_eq_true_iff.1 h
      obtain ⟨hcondition, hbranch⟩ := Bool.and_eq_true_iff.1 hconditional
      exact .ifThenElse (Expression.derives_terminals hcondition .whole condition.whole_rank_le)
        (derives_terminals branch hbranch) (derives_terminals alternative halternative)
  | .whileDo condition body, h => by
      obtain ⟨hcondition, hbody⟩ := Bool.and_eq_true_iff.1 h
      exact .whileDo (Expression.derives_terminals hcondition .whole condition.whole_rank_le)
        (derives_terminals body hbody)

/-- The layouts of well-spelled statements derive them. -/
theorem derivesAll_terminalsAll : (ss : List Statement) → areWellSpelled ss = true →
    DerivesAll ss (terminalsAll ss) (layoutLevelsAll ss)
  | [], _ => .nil
  | s :: ss, h => by
      obtain ⟨hs, hss⟩ := Bool.and_eq_true_iff.1 h
      exact .cons (derives_terminals s hs) (derivesAll_terminalsAll ss hss)

end

end Statement

namespace Program

/-- The terminals of the layout of a program. -/
def terminals (p : Program) : List Terminal :=
  .word "program" :: .name p.name :: .symbol ";" ::
    (Declaration.terminalsAll p.block.declarations ++
      .word "begin" :: (Statement.terminalsAll p.block.body ++ [.word "end", .symbol "."]))

/-- The levels that the layout of a program reaches. -/
def layoutLevels (p : Program) : List Nat :=
  Statement.layoutLevelsAll p.block.body

/-- The layout of a well-spelled program derives it. -/
theorem derives_terminals {p : Program} (h : p.isWellSpelled = true) :
    p.Derives p.terminals p.layoutLevels := by
  obtain ⟨hheader, hbody⟩ := Bool.and_eq_true_iff.1 h
  obtain ⟨-, hdeclarations⟩ := Bool.and_eq_true_iff.1 hheader
  exact ⟨Declaration.allNamed_of_isWellSpelled hdeclarations, _,
    Statement.derivesAll_terminalsAll p.block.body hbody, rfl⟩

end Program

end MiniPascal
