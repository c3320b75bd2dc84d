import MiniPascal.Proofs.LayoutDerivation

/-!
# The levels of a layout

A layout keeps to the parentheses that every way to write the tree needs, except
for a product behind a sign.  There it puts a pair that the grammar can do without,
and that takes one more level.
-/

namespace MiniPascal

namespace Expression

/-- How many signs of the expression have a product as their operand. -/
def signedProducts : Expression → Nat
  | .number .. | .ident _ => 0
  | .signed _ operand => operand.signedProducts + if operand.rank = 3 then 1 else 0
  | .binary _ lhs rhs => lhs.signedProducts + rhs.signedProducts

/-- How many pairs of parentheses make the expression a phrase of the layer. -/
def parensAt (e : Expression) (layer : Layer) : Nat :=
  if e.rank < layer.rank then 1 else 0

theorem parensAt_le_one (e : Expression) (layer : Layer) : e.parensAt layer ≤ 1 := by
  unfold parensAt
  split <;> omega

theorem parensAt_eq_zero {e : Expression} {layer : Layer} (h : layer.rank ≤ e.rank) :
    e.parensAt layer = 0 :=
  if_neg (Nat.not_lt.2 h)

theorem parensAt_le_parensAt (e : Expression) {k l : Layer} (h : l.rank ≤ k.rank) :
    e.parensAt l ≤ e.parensAt k := by
  unfold parensAt
  split <;> split <;> omega

/-- Only a product is a term and not a factor. -/
theorem parensAt_factor (e : Expression) :
    e.parensAt .factor = e.parensAt .term + if e.rank = 3 then 1 else 0 := by
  have hterm : Layer.term.rank = 3 := rfl
  have hfactor : Layer.factor.rank = 4 := rfl
  unfold parensAt
  split <;> split <;> split <;> omega

theorem count_parenthesizeTerminals (e : Expression) (layer : Layer) (ts : List Terminal) :
    (parenthesizeTerminals (decide (e.rank < layer.rank)) ts).count (.symbol "(") =
      ts.count (.symbol "(") + e.parensAt layer := by
  have hclose : Terminal.symbol ")" ≠ Terminal.symbol "(" := by decide
  by_cases hrank : e.rank < layer.rank
  · simp [parenthesizeTerminals, parensAt, hrank, List.count_append, hclose]
  · simp [parenthesizeTerminals, parensAt, hrank]

theorem count_terminals_signed (sign : Sign) (operand : Expression) :
    (signed sign operand).terminals.count (.symbol "(") =
      operand.terminals.count (.symbol "(") + operand.parensAt .factor := by
  rw [terminals, List.count_cons_of_ne
    ((Terminal.operator_denotes sign.operator).ne_symbol "(")]
  exact count_parenthesizeTerminals operand .factor operand.terminals

theorem count_terminals_binary {op : BinaryOperator} {lhs rhs : Expression} {k l : Layer}
    (h : needsParensLeft op lhs = decide (lhs.rank < k.rank) ∧
      needsParensRight op rhs = decide (rhs.rank < l.rank)) :
    (binary op lhs rhs).terminals.count (.symbol "(") =
      lhs.terminals.count (.symbol "(") + lhs.parensAt k +
        (rhs.terminals.count (.symbol "(") + rhs.parensAt l) := by
  rw [terminals, h.1, h.2, List.count_append,
    List.count_cons_of_ne ((Terminal.operator_denotes op).ne_symbol "("),
    count_parenthesizeTerminals, count_parenthesizeTerminals]

/-- The terminals hold the parentheses inside the layout of the expression and those that make it a
phrase of the layer, except for one pair for each product behind a sign. -/
def HoldsParens (layer : Layer) (e : Expression) (ts : List Terminal) : Prop :=
  e.terminals.count (.symbol "(") + e.parensAt layer ≤ ts.count (.symbol "(") + e.signedProducts

/-- A looser layer needs no more parentheses. -/
theorem HoldsParens.loosen {k l : Layer} {e : Expression} {ts : List Terminal}
    (h : HoldsParens k e ts) (hkl : l.rank ≤ k.rank) : HoldsParens l e ts := by
  have hle := e.parensAt_le_parensAt hkl
  unfold HoldsParens at *
  omega

/-- An operator between its operands needs no parentheses on the layer of its class. -/
theorem HoldsParens.binary {op : BinaryOperator} {t : Terminal} {l r : Expression}
    {ts us : List Terminal} {j k layer : Layer} (ht : t.Denotes op)
    (hneeds : needsParensLeft op l = decide (l.rank < j.rank) ∧
      needsParensRight op r = decide (r.rank < k.rank))
    (hprec : op.precedence = layer.rank) (hl : HoldsParens j l ts) (hr : HoldsParens k r us) :
    HoldsParens layer (.binary op l r) (ts ++ t :: us) := by
  have hzero : (Expression.binary op l r).parensAt layer = 0 :=
    parensAt_eq_zero (Nat.le_of_eq hprec.symm)
  unfold HoldsParens at *
  rw [count_terminals_binary hneeds, hzero, List.count_append,
    List.count_cons_of_ne (ht.ne_symbol "("), signedProducts]
  omega

/-- Every way to write an expression holds the parentheses of its layout, except for those around
products behind signs. -/
theorem Derives.holdsParens {layer : Layer} {e : Expression} {ts : List Terminal}
    (h : e.Derives layer ts) : HoldsParens layer e ts := by
  induction h with
  | number kind numeral hnumeral =>
      have hcount : [Terminal.number kind numeral].count (.symbol "(") = 0 := by cases kind <;> rfl
      have hzero : (Expression.number kind numeral).parensAt .factor = 0 := rfl
      rw [HoldsParens, terminals, hcount, hzero]
      omega
  | ident name =>
      have hzero : (Expression.ident name).parensAt .factor = 0 := rfl
      rw [HoldsParens, terminals, hzero]
      omega
  | @parens e ts he ih =>
      -- the pair that is written makes up for the one that a factor may need
      have hclose : Terminal.symbol ")" ≠ Terminal.symbol "(" := by decide
      have hcount : (Terminal.symbol "(" :: (ts ++ [.symbol ")"])).count (.symbol "(") =
          ts.count (.symbol "(") + 1 := by simp [List.count_append, hclose]
      have hone := e.parensAt_le_one .factor
      unfold HoldsParens at *
      omega
  | ofFactor he ih => exact ih.loosen (by decide)
  | ofTerm he ih => exact ih.loosen (by decide)
  | ofSimple he ih => exact ih.loosen (by decide)
  | @signed sign t e ts ht he ih =>
      -- the layout wants a factor behind the sign where the grammar wants a term
      have hzero : (Expression.signed sign e).parensAt .simple = 0 := rfl
      have hfactor := e.parensAt_factor
      unfold HoldsParens at *
      rw [count_terminals_signed, List.count_cons_of_ne (ht.ne_symbol "("), signedProducts, hzero]
      omega
  | @product op t l r ts us hop ht hl hr ihl ihr =>
      exact .binary ht (needsParens_of_isMultiplicative hop l r)
        (BinaryOperator.precedence_of_isMultiplicative hop) ihl ihr
  | @sum op t l r ts us hop ht hl hr ihl ihr =>
      exact .binary ht (needsParens_of_isAdditive hop l r)
        (BinaryOperator.precedence_of_isAdditive hop) ihl ihr
  | @comparison op t l r ts us hop ht hl hr ihl ihr =>
      exact .binary ht (needsParens_of_isRelational hop l r)
        (BinaryOperator.precedence_of_isRelational hop) ihl ihr

/-- Without a product behind a sign the layout takes no more levels than the source. -/
theorem Derives.layoutLevels_le {e : Expression} {ts : List Terminal} (h : e.Derives .whole ts)
    (hsigns : e.signedProducts = 0) : e.layoutLevels ≤ e.levels ts := by
  have hcount := h.holdsParens
  simp only [HoldsParens] at hcount
  simp only [layoutLevels, levels, innerLevels]
  omega

end Expression

namespace Statement

mutual

/-- How many signs in the statement have a product as their operand. -/
def signedProducts : Statement → Nat
  | .assign _ value => value.signedProducts
  | .declare _ => 0
  | .compound ss => signedProductsAll ss
  | .ifThen condition branch => condition.signedProducts + branch.signedProducts
  | .ifThenElse condition branch alternative =>
      condition.signedProducts + branch.signedProducts + alternative.signedProducts
  | .whileDo condition body => condition.signedProducts + body.signedProducts

/-- `signedProducts` of all statements of a list. -/
def signedProductsAll : List Statement → Nat
  | [] => 0
  | s :: ss => s.signedProducts + signedProductsAll ss

end

end Statement

/-- Each of the levels is at most one of the others. -/
def LevelsBelow (ns ms : List Nat) : Prop :=
  ∀ n ∈ ns, ∃ m ∈ ms, n ≤ m

namespace LevelsBelow

variable {ns ms ns' ms' : List Nat}

theorem cons {n m : Nat} (hn : n ≤ m) (h : LevelsBelow ns ms) :
    LevelsBelow (n :: ns) (m :: ms) := by
  intro k hk
  rcases List.mem_cons.1 hk with rfl | hk
  · exact ⟨m, List.mem_cons_self, hn⟩
  · obtain ⟨j, hj, hle⟩ := h k hk
    exact ⟨j, List.mem_cons_of_mem m hj, hle⟩

theorem append (h : LevelsBelow ns ms) (h' : LevelsBelow ns' ms') :
    LevelsBelow (ns ++ ns') (ms ++ ms') := by
  intro k hk
  rcases List.mem_append.1 hk with hk | hk
  · obtain ⟨j, hj, hle⟩ := h k hk
    exact ⟨j, List.mem_append_left ms' hj, hle⟩
  · obtain ⟨j, hj, hle⟩ := h' k hk
    exact ⟨j, List.mem_append_right ms hj, hle⟩

theorem map_add (h : LevelsBelow ns ms) (depth : Nat) :
    LevelsBelow (ns.map (depth + ·)) (ms.map (depth + ·)) := by
  intro k hk
  obtain ⟨n, hn, rfl⟩ := List.mem_map.1 hk
  obtain ⟨m, hm, hle⟩ := h n hn
  exact ⟨depth + m, List.mem_map_of_mem hm, Nat.add_le_add_left hle depth⟩

end LevelsBelow

namespace Statement

mutual

/-- Without a product behind a sign the layout of a statement reaches no deeper level than the
source. -/
theorem Derives.layoutLevels_below {s : Statement} {ts : List Terminal} {ns : List Nat}
    (h : s.Derives ts ns) (hsigns : s.signedProducts = 0) : LevelsBelow s.layoutLevels ns := by
  have hnil : LevelsBelow [] [] := fun _ hn => absurd hn List.not_mem_nil
  have hone : 1 ≤ 1 := Nat.le_refl 1
  cases h with
  | assign ht hvalue =>
      have hle := hvalue.layoutLevels_le hsigns
      exact .cons hone (.cons (by omega) hnil)
  | declare hne hnamed => exact .cons hone hnil
  | compound hss => exact .cons hone ((hss.layoutLevelsAll_below hsigns).map_add 1)
  | ifThen hcondition hbranch | whileDo hcondition hbranch =>
      simp only [signedProducts, Nat.add_eq_zero_iff] at hsigns
      have hle := hcondition.layoutLevels_le hsigns.1
      have hbelow := hbranch.layoutLevels_below hsigns.2
      exact .cons hone (.cons (by omega) (hbelow.map_add 1))
  | ifThenElse hcondition hbranch halternative =>
      simp only [signedProducts, Nat.add_eq_zero_iff] at hsigns
      have hle := hcondition.layoutLevels_le hsigns.1.1
      have hbelow := hbranch.layoutLevels_below hsigns.1.2
      have hbelow' := halternative.layoutLevels_below hsigns.2
      exact .cons hone (.cons (by omega) ((hbelow.map_add 1).append (hbelow'.map_add 1)))

/-- Without a product behind a sign the layouts of statements reach no deeper level than the
source. -/
theorem DerivesAll.layoutLevelsAll_below {ss : List Statement} {ts : List Terminal} {ns : List Nat}
    (h : DerivesAll ss ts ns) (hsigns : signedProductsAll ss = 0) :
    LevelsBelow (layoutLevelsAll ss) ns := by
  cases h with
  | nil => exact fun _ hn => absurd hn List.not_mem_nil
  | cons hs hss =>
      simp only [signedProductsAll, Nat.add_eq_zero_iff] at hsigns
      exact (hs.layoutLevels_below hsigns.1).append (hss.layoutLevelsAll_below hsigns.2)

end

end Statement

/-- How many signs in the program have a product as their operand. -/
def Program.signedProducts (p : Program) : Nat :=
  Statement.signedProductsAll p.block.body

/-- Without a product behind a sign the layout of a program reaches no deeper level than the
source. -/
theorem Program.Derives.layoutLevels_below {p : Program} {ts : List Terminal} {ns : List Nat}
    (h : p.Derives ts ns) (hsigns : p.signedProducts = 0) : LevelsBelow p.layoutLevels ns := by
  obtain ⟨us, hbody, -⟩ := h.body
  exact hbody.layoutLevelsAll_below hsigns

end MiniPascal
