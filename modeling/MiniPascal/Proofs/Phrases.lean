import MiniPascal.Proofs.Brackets
import MiniPascal.Proofs.LayoutDerivation

/-!
# The parts of a phrase

A phrase is balanced, and beside its parentheses it has one terminal for each node
of its tree (`Derives.hasExtent`).  So whatever has the extent of an operand ends
where the operand ends, and a phrase is taken apart at its outermost operator
(`derives_binary_iff`, `derives_signed_iff`).  No operator outside all parentheses
binds less tightly than the layer of the phrase (`Derives.rank_le_precedence`).
-/

namespace MiniPascal

namespace BinaryOperator

open Expression (Layer)

/-- The layer of an operator between its operands. -/
def layer (op : BinaryOperator) : Layer :=
  if op.isMultiplicative then .term else if op.isAdditive then .simple else .whole

/-- The layer of a left operand: chains group to the left. -/
def leftLayer (op : BinaryOperator) : Layer :=
  if op.isMultiplicative then .term else .simple

/-- The layer of a right operand. -/
def rightLayer (op : BinaryOperator) : Layer :=
  if op.isMultiplicative then .factor else if op.isAdditive then .term else .simple

theorem layers_of_isMultiplicative {op : BinaryOperator} (h : op.isMultiplicative = true) :
    op.leftLayer = .term ∧ op.rightLayer = .factor :=
  ⟨if_pos h, if_pos h⟩

theorem layers_of_isAdditive {op : BinaryOperator} (h : op.isAdditive = true) :
    op.leftLayer = .simple ∧ op.rightLayer = .term := by
  simp [leftLayer, rightLayer, isMultiplicative_of_isAdditive h, h]

theorem layers_of_isRelational {op : BinaryOperator} (h : op.isRelational = true) :
    op.leftLayer = .simple ∧ op.rightLayer = .simple := by
  cases op <;> first | exact ⟨rfl, rfl⟩ | exact absurd h (by decide)

theorem rank_layer (op : BinaryOperator) : op.layer.rank = op.precedence := by
  cases op <;> rfl

theorem precedence_le_three (op : BinaryOperator) : op.precedence ≤ 3 := by
  cases op <;> decide

end BinaryOperator

/-- A sign binds like addition. -/
theorem Sign.precedence_operator (sign : Sign) : sign.operator.precedence = 2 := by
  cases sign <;> rfl

/-- Two cuts in front of an element of one list: one of them comes first. -/
theorem append_cons_cases {α : Type} {as bs cs ds : List α} {x y : α}
    (h : as ++ x :: bs = cs ++ y :: ds) :
    (∃ ms, as = cs ++ y :: ms ∧ ds = ms ++ x :: bs) ∨ (as = cs ∧ x = y ∧ bs = ds) ∨
      ∃ ms, cs = as ++ x :: ms ∧ bs = ms ++ y :: ds := by
  rcases List.append_eq_append_iff.1 h with ⟨ms, rfl, hms⟩ | ⟨ms, rfl, hms⟩
  · cases ms with
    | nil => exact .inr (.inl ⟨by simp, List.cons.inj hms⟩)
    | cons m ms =>
        obtain ⟨rfl, rfl⟩ := List.cons.inj hms
        exact .inr (.inr ⟨ms, rfl, rfl⟩)
  · cases ms with
    | nil =>
        obtain ⟨rfl, rfl⟩ := List.cons.inj hms
        exact .inr (.inl ⟨by simp, rfl, rfl⟩)
    | cons m ms =>
        obtain ⟨rfl, rfl⟩ := List.cons.inj hms
        exact .inl ⟨ms, rfl, rfl⟩

/-- A list is cut in one way only, if the elements that count in front of the cut are known. -/
theorem append_cons_inj_of_countP {α : Type} {p : α → Bool} {as bs cs ds : List α} {x y : α}
    (hx : p x = true) (hy : p y = true) (hcount : as.countP p = cs.countP p)
    (h : as ++ x :: bs = cs ++ y :: ds) : as = cs ∧ x = y ∧ bs = ds := by
  rcases append_cons_cases h with ⟨ms, rfl, -⟩ | hsame | ⟨ms, rfl, -⟩
  · rw [List.countP_append, List.countP_cons_of_pos hy] at hcount
    omega
  · exact hsame
  · rw [List.countP_append, List.countP_cons_of_pos hx] at hcount
    omega

namespace Terminal

/-- The terminals close the parentheses that they open, and no others. -/
abbrev AreBalanced (ts : List Terminal) : Prop :=
  IsBalanced (.symbol "(") (.symbol ")") ts

/-- The terminal is no parenthesis. -/
def isBare (t : Terminal) : Bool :=
  t != .symbol "(" && t != .symbol ")"

theorem isBare_iff {t : Terminal} : t.isBare = true ↔ t ≠ .symbol "(" ∧ t ≠ .symbol ")" := by
  simp [isBare]

theorem Denotes.isBare {t : Terminal} {op : BinaryOperator} (h : t.Denotes op) :
    t.isBare = true :=
  isBare_iff.2 ⟨h.ne_symbol "(", h.ne_symbol ")"⟩

theorem closing_ne_opening : symbol ")" ≠ symbol "(" := by decide

theorem areBalanced_cons {t : Terminal} (ht : t.isBare = true) {ts : List Terminal} :
    AreBalanced (t :: ts) ↔ AreBalanced ts :=
  IsBalanced.cons_iff (isBare_iff.1 ht).1 (isBare_iff.1 ht).2

end Terminal

namespace Expression

open Terminal (AreBalanced)

/-- The nodes of an expression. -/
def size : Expression → Nat
  | .number .. | .ident _ => 1
  | .signed _ operand => operand.size + 1
  | .binary _ lhs rhs => lhs.size + rhs.size + 1

theorem size_pos (e : Expression) : 0 < e.size := by
  cases e <;> simp [size]

/-- Balanced terminals, one for each node of the expression beside the parentheses. -/
structure HasExtent (e : Expression) (ts : List Terminal) : Prop where
  balanced : AreBalanced ts
  count : ts.countP Terminal.isBare = e.size

namespace HasExtent

variable {e l r : Expression} {ts us : List Terminal}

theorem leaf {t : Terminal} (ht : t.isBare = true) (hsize : e.size = 1) : e.HasExtent [t] :=
  ⟨(Terminal.areBalanced_cons ht).2 IsBalanced.nil, by simp [ht, hsize]⟩

theorem parens (h : e.HasExtent ts) : e.HasExtent (.symbol "(" :: (ts ++ [.symbol ")"])) := by
  refine ⟨h.balanced.enclosed Terminal.closing_ne_opening, ?_⟩
  have hopen : (Terminal.symbol "(").isBare = false := rfl
  have hclose : (Terminal.symbol ")").isBare = false := rfl
  simp [h.count, hopen, hclose]

theorem parenthesize (needed : Bool) (h : e.HasExtent ts) :
    e.HasExtent (parenthesizeTerminals needed ts) := by
  cases needed with
  | false => exact h
  | true => exact h.parens

theorem signed {sign : Sign} {t : Terminal} (ht : t.isBare = true) (h : e.HasExtent ts) :
    (Expression.signed sign e).HasExtent (t :: ts) :=
  ⟨(Terminal.areBalanced_cons ht).2 h.balanced, by
    rw [List.countP_cons_of_pos ht, h.count, size]⟩

theorem binary {op : BinaryOperator} {t : Terminal} (ht : t.isBare = true) (hl : l.HasExtent ts)
    (hr : r.HasExtent us) : (Expression.binary op l r).HasExtent (ts ++ t :: us) := by
  refine ⟨hl.balanced.append_iff.2 ((Terminal.areBalanced_cons ht).2 hr.balanced), ?_⟩
  rw [List.countP_append, List.countP_cons_of_pos ht, hl.count, hr.count, size]
  omega

/-- What has the extent of an operand ends at the operator behind it. -/
theorem append_cons_inj {t u : Terminal} {vs ws : List Terminal} (ht : t.isBare = true)
    (hu : u.isBare = true) (hts : e.HasExtent ts) (hus : e.HasExtent us)
    (h : ts ++ t :: vs = us ++ u :: ws) : ts = us ∧ t = u ∧ vs = ws :=
  append_cons_inj_of_countP ht hu (hts.count.trans hus.count.symm) h

end HasExtent

/-- A phrase has the extent of its tree. -/
theorem Derives.hasExtent {layer : Layer} {e : Expression} {ts : List Terminal}
    (h : e.Derives layer ts) : e.HasExtent ts := by
  induction h with
  | number kind numeral hnumeral => exact .leaf (by cases kind <;> rfl) rfl
  | ident name => exact .leaf rfl rfl
  | parens he ih => exact ih.parens
  | ofFactor he ih | ofTerm he ih | ofSimple he ih => exact ih
  | signed ht he ih => exact ih.signed ht.isBare
  | product hop ht hl hr ihl ihr | sum hop ht hl hr ihl ihr | comparison hop ht hl hr ihl ihr =>
      exact ihl.binary ht.isBare ihr

/-! ### The operators of a phrase -/

section

variable {layer : Layer} {e l r : Expression} {op : BinaryOperator} {sign : Sign} {t : Terminal}
  {ts us : List Terminal}

/-- An operator outside all parentheses is the outermost one, or it stands outside all parentheses
of an operand. -/
theorem rank_le_precedence_of_binary {op' : BinaryOperator} {t' : Terminal}
    {as bs : List Terminal} (ht' : t'.Denotes op') (hlayer : op'.precedence = layer.rank)
    (hts : AreBalanced ts) (has : AreBalanced as) (ht : t.Denotes op)
    (h : ts ++ t' :: us = as ++ t :: bs)
    (hl : ∀ cs, ts = as ++ t :: cs → layer.rank ≤ op.precedence)
    (hr : ∀ cs, AreBalanced cs → us = cs ++ t :: bs → layer.rank ≤ op.precedence) :
    layer.rank ≤ op.precedence := by
  rcases append_cons_cases h with ⟨cs, hcut, -⟩ | ⟨-, rfl, -⟩ | ⟨cs, rfl, hcut⟩
  · exact hl cs hcut
  · rw [ht.eq ht']
    exact Nat.le_of_eq hlayer.symm
  · -- the operand on the left is balanced, so what is cut off behind it is balanced too
    exact hr cs ((Terminal.areBalanced_cons ht'.isBare).1 (hts.append_iff.1 has)) hcut

/-- No operator outside all parentheses binds less tightly than the layer of the phrase. -/
theorem Derives.rank_le_precedence (h : e.Derives layer ts) {as bs : List Terminal}
    (has : AreBalanced as) (ht : t.Denotes op) (hts : ts = as ++ t :: bs) :
    layer.rank ≤ op.precedence := by
  induction h generalizing as bs with
  | number kind numeral hnumeral =>
      have hmem : t ∈ [Terminal.number kind numeral] := hts ▸ by simp
      obtain rfl := List.mem_singleton.1 hmem
      exact absurd ht.1 (by cases kind <;> simp [Terminal.number, Category.kind])
  | ident name =>
      have hmem : t ∈ [Terminal.name name] := hts ▸ by simp
      obtain rfl := List.mem_singleton.1 hmem
      exact absurd ht.1 (by simp [Terminal.name, Category.kind])
  | parens he ih =>
      exact absurd hts.symm (has.append_cons_ne_enclosed (ht.ne_symbol "(") (ht.ne_symbol ")")
        he.hasExtent.balanced)
  | ofFactor he ih | ofTerm he ih | ofSimple he ih => exact Nat.le_of_succ_le (ih has hts)
  | @signed sign u e us hu he ih =>
      cases as with
      | nil =>
          obtain ⟨rfl, -⟩ := List.cons.inj hts
          rw [ht.eq hu, sign.precedence_operator]
          exact Nat.le_refl 2
      | cons a as =>
          obtain ⟨rfl, hrest⟩ := List.cons.inj hts
          exact Nat.le_of_succ_le (ih ((Terminal.areBalanced_cons hu.isBare).1 has) hrest)
  | product hop hu hl hr ihl ihr =>
      exact rank_le_precedence_of_binary hu (BinaryOperator.precedence_of_isMultiplicative hop)
        hl.hasExtent.balanced has ht hts (fun _ => ihl has)
        fun _ hcs hcut => Nat.le_of_succ_le (ihr hcs hcut)
  | sum hop hu hl hr ihl ihr =>
      exact rank_le_precedence_of_binary hu (BinaryOperator.precedence_of_isAdditive hop)
        hl.hasExtent.balanced has ht hts (fun _ => ihl has)
        fun _ hcs hcut => Nat.le_of_succ_le (ihr hcs hcut)
  | comparison hop hu hl hr ihl ihr =>
      exact rank_le_precedence_of_binary hu (BinaryOperator.precedence_of_isRelational hop)
        hl.hasExtent.balanced has ht hts (fun _ hcut => Nat.le_of_succ_le (ihl has hcut))
        fun _ hcs hcut => Nat.le_of_succ_le (ihr hcs hcut)

/-! ### Taking phrases apart -/

/-- Parentheses around balanced terminals enclose a whole expression. -/
theorem derives_parens_iff (hts : AreBalanced ts) :
    e.Derives layer (.symbol "(" :: (ts ++ [.symbol ")"])) ↔ e.Derives .whole ts := by
  constructor
  · intro h
    generalize henclosed : Terminal.symbol "(" :: (ts ++ [.symbol ")"]) = us at h
    induction h with
    | number kind numeral hnumeral =>
        obtain ⟨hhead, -⟩ := List.cons.inj henclosed
        cases kind <;> exact absurd hhead (by simp [Terminal.symbol, Terminal.number])
    | ident name =>
        obtain ⟨hhead, -⟩ := List.cons.inj henclosed
        exact absurd hhead (by simp [Terminal.symbol, Terminal.name])
    | parens he ih =>
        obtain ⟨-, htail⟩ := List.cons.inj henclosed
        rwa [List.append_cancel_right htail]
    | ofFactor he ih | ofTerm he ih | ofSimple he ih => exact ih henclosed
    | signed ht he ih => exact absurd (List.cons.inj henclosed).1.symm (ht.ne_symbol "(")
    | product hop ht hl hr | sum hop ht hl hr | comparison hop ht hl hr =>
        exact absurd henclosed.symm (hl.hasExtent.balanced.append_cons_ne_enclosed
          (ht.ne_symbol "(") (ht.ne_symbol ")") hts)
  · intro h
    exact (Derives.parens h).loosen (by cases layer <;> decide)

/-- The operands of an operator are phrases of the layers that belong to it. -/
theorem Derives.binary (ht : t.Denotes op) (hl : l.Derives op.leftLayer ts)
    (hr : r.Derives op.rightLayer us) :
    (Expression.binary op l r).Derives op.layer (ts ++ t :: us) := by
  cases op <;> first
    | exact .product rfl ht hl hr
    | exact .sum rfl ht hl hr
    | exact .comparison rfl ht hl hr

/-- A binary expression stands in parentheses or between its operands is its operator. -/
theorem Derives.binary_cases (h : (Expression.binary op l r).Derives layer ts) :
    (∃ us, AreBalanced us ∧ ts = .symbol "(" :: (us ++ [.symbol ")"])) ∨
      ∃ t us vs, t.Denotes op ∧ l.Derives op.leftLayer us ∧ r.Derives op.rightLayer vs ∧
        ts = us ++ t :: vs := by
  generalize he : Expression.binary op l r = e at h
  induction h with
  | number | ident | signed => exact absurd he (by simp)
  | parens hinner ih => exact .inl ⟨_, hinner.hasExtent.balanced, rfl⟩
  | ofFactor _ ih | ofTerm _ ih | ofSimple _ ih => exact ih he
  | product hop ht hl hr =>
      cases he
      obtain ⟨hleft, hright⟩ := BinaryOperator.layers_of_isMultiplicative hop
      exact .inr ⟨_, _, _, ht, hleft ▸ hl, hright ▸ hr, rfl⟩
  | sum hop ht hl hr =>
      cases he
      obtain ⟨hleft, hright⟩ := BinaryOperator.layers_of_isAdditive hop
      exact .inr ⟨_, _, _, ht, hleft ▸ hl, hright ▸ hr, rfl⟩
  | comparison hop ht hl hr =>
      cases he
      obtain ⟨hleft, hright⟩ := BinaryOperator.layers_of_isRelational hop
      exact .inr ⟨_, _, _, ht, hleft ▸ hl, hright ▸ hr, rfl⟩

/-- Between terminals with the extents of its operands an operator has those operands. -/
theorem derives_binary_iff (ht : t.Denotes op) (hlayer : layer.rank ≤ op.precedence)
    (hts : l.HasExtent ts) :
    (Expression.binary op l r).Derives layer (ts ++ t :: us) ↔
      l.Derives op.leftLayer ts ∧ r.Derives op.rightLayer us := by
  constructor
  · intro h
    obtain ⟨vs, hvs, henclosed⟩ | ⟨u, vs, ws, hu, hl, hr, hcut⟩ := h.binary_cases
    · exact absurd henclosed
        (hts.balanced.append_cons_ne_enclosed (ht.ne_symbol "(") (ht.ne_symbol ")") hvs)
    · obtain ⟨rfl, -, rfl⟩ := hts.append_cons_inj ht.isBare hu.isBare hl.hasExtent hcut
      exact ⟨hl, hr⟩
  · rintro ⟨hl, hr⟩
    exact (Derives.binary ht hl hr).loosen (op.rank_layer ▸ hlayer)

theorem Derives.of_signed (h : (Expression.signed sign e).Derives layer (t :: ts))
    (ht : t ≠ .symbol "(") : e.Derives .term ts := by
  generalize hsigned : Expression.signed sign e = f at h
  generalize hus : t :: ts = us at h
  induction h with
  | number | ident | product | sum | comparison => exact absurd hsigned (by simp)
  | parens => exact absurd (List.cons.inj hus).1 ht
  | ofFactor he ih | ofTerm he ih | ofSimple he ih => exact ih hsigned hus
  | signed hu he ih =>
      cases hsigned
      obtain ⟨-, rfl⟩ := List.cons.inj hus
      exact he

/-- Behind a sign stands a term. -/
theorem derives_signed_iff (ht : t.Denotes sign.operator)
    (hlayer : layer.rank ≤ Layer.simple.rank) :
    (Expression.signed sign e).Derives layer (t :: ts) ↔ e.Derives .term ts :=
  ⟨fun h => h.of_signed (ht.ne_symbol "("), fun h => (Derives.signed ht h).loosen hlayer⟩

/-! ### The layout as a phrase -/

/-- The layout puts parentheses around the operands that are no phrases of the layers that belong
to the operator. -/
theorem needsParens_eq (op : BinaryOperator) (l r : Expression) :
    needsParensLeft op l = decide (l.rank < op.leftLayer.rank) ∧
      needsParensRight op r = decide (r.rank < op.rightLayer.rank) := by
  rcases op.class_cases with h | h | h
  · obtain ⟨hleft, hright⟩ := BinaryOperator.layers_of_isMultiplicative h
    rw [hleft, hright]
    exact needsParens_of_isMultiplicative h l r
  · obtain ⟨hleft, hright⟩ := BinaryOperator.layers_of_isAdditive h
    rw [hleft, hright]
    exact needsParens_of_isAdditive h l r
  · obtain ⟨hleft, hright⟩ := BinaryOperator.layers_of_isRelational h
    rw [hleft, hright]
    exact needsParens_of_isRelational h l r

theorem hasExtent_terminals (hspelled : e.isWellSpelled = true) : e.HasExtent e.terminals :=
  (derives_terminals hspelled .whole e.whole_rank_le).hasExtent

/-- Written as in its layout, an expression is a phrase of no tighter layer than its rank says. -/
theorem derives_terminals_iff (hspelled : e.isWellSpelled = true) :
    e.Derives layer e.terminals ↔ layer.rank ≤ e.rank := by
  refine ⟨fun h => ?_, derives_terminals hspelled layer⟩
  cases e with
  | number | ident => cases layer <;> simp [Layer.rank, rank]
  | signed sign operand =>
      have hnil : AreBalanced [] := IsBalanced.nil
      have hle := h.rank_le_precedence hnil (Terminal.operator_denotes sign.operator) rfl
      rwa [sign.precedence_operator] at hle
  | binary op lhs rhs =>
      obtain ⟨hl, -⟩ : lhs.isWellSpelled = true ∧ rhs.isWellSpelled = true := by
        simpa [isWellSpelled] using hspelled
      exact h.rank_le_precedence ((hasExtent_terminals hl).parenthesize _).balanced
        (Terminal.operator_denotes op) rfl

end

end Expression

end MiniPascal
