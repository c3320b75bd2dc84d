import MiniPascal.Proofs.ParserRuns

/-!
# Parsing expressions and deriving them

The tokens that the parser of an expression consumes derive its answer
(`rootExpression_sound`), and tokens that derive an expression are read as that
expression if there are levels enough (`reads_rootExpression`).  The second part
goes by induction on the derivation.  Since the productions of chains are left
recursive, a phrase of such a layer is said to lead to the chain that follows it.
-/

namespace MiniPascal

theorem Token.terminal_of_kind_number {t : Token} (h : t.kind = .number) :
    t.terminal = .number (if t.category == .realNumber then .real else .integer) t.lexeme := by
  obtain ⟨category, spelling, line, column⟩ := t
  cases category <;> simp_all [kind, Category.kind, terminal, Terminal.number]

theorem Token.kind_eq (t : Token) : t.kind = t.terminal.category.kind := rfl

namespace Expression

/-- No layer is empty, and only signed ones begin with an operator. -/
theorem Derives.starts {layer : Layer} {e : Expression} {ts : List Terminal}
    (h : e.Derives layer ts) :
    ∃ t us, ts = t :: us ∧ (layer = .factor ∨ layer = .term → t.category.kind ≠ .operator) := by
  induction h with
  | number kind numeral _ =>
      refine ⟨_, [], rfl, fun _ => ?_⟩
      cases kind <;> simp [Terminal.number, Category.kind]
  | ident name => exact ⟨_, [], rfl, fun _ => by simp [Terminal.name, Category.kind]⟩
  | parens he ih => exact ⟨_, _, rfl, fun _ => by simp [Terminal.symbol, Category.kind]⟩
  | ofFactor he ih =>
      obtain ⟨t, us, rfl, hkind⟩ := ih
      exact ⟨t, us, rfl, fun _ => hkind (.inl rfl)⟩
  | product hop ht hl hr ihl ihr =>
      obtain ⟨t, us, rfl, hkind⟩ := ihl
      exact ⟨t, _, rfl, fun _ => hkind (.inr rfl)⟩
  | ofTerm he ih =>
      obtain ⟨t, us, rfl, -⟩ := ih
      exact ⟨t, us, rfl, by simp⟩
  | signed ht he ih => exact ⟨_, _, rfl, by simp⟩
  | sum hop ht hl hr ihl ihr | comparison hop ht hl hr ihl ihr =>
      obtain ⟨t, us, rfl, -⟩ := ihl
      exact ⟨t, _, rfl, by simp⟩
  | ofSimple he ih =>
      obtain ⟨t, us, rfl, -⟩ := ih
      exact ⟨t, us, rfl, by simp⟩

theorem Derives.ne_nil {layer : Layer} {e : Expression} {ts : List Terminal}
    (h : e.Derives layer ts) : ts ≠ [] := by
  obtain ⟨t, us, rfl, -⟩ := h.starts
  exact List.cons_ne_nil t us

end Expression

namespace Expression.Layer

/-- A phrase of the layer that is followed by the operator goes on with it. -/
def continuedBy : Layer → BinaryOperator → Bool
  | factor => fun _ => false
  | term => BinaryOperator.isMultiplicative
  | simple => fun op => op.isMultiplicative || op.isAdditive
  | whole => fun _ => true

theorem continuedBy_simple_of_isRelational {op : BinaryOperator} (h : op.isRelational = true) :
    simple.continuedBy op = false := by
  cases op <;> first | rfl | exact absurd h (by decide)

end Expression.Layer

namespace Parser

open Expression (Layer Derives depth_add_innerLevels_binary)
open Expression.Layer (continuedBy_simple_of_isRelational)
open BinaryOperator

/-! ### What a success consumes -/

/-- What the parser consumes derives its answer as a phrase of the layer. -/
def Sound (layer : Layer) (p : Parser Expression) : Prop :=
  ∀ {s m : Progress} {e : Expression}, p s = (.ok e, m) →
    ∃ ts, s.Consumes m ts ∧ e.Derives layer ts

theorem factor_sound {inner : Parser Expression} (hinner : Sound .whole inner) :
    Sound .factor (factor inner) := by
  intro s m e h
  obtain ⟨t, s', hcurrent, hrun⟩ := bind_eq_ok h
  obtain ⟨rfl, hhead⟩ := current_eq_ok hcurrent
  cases hkind : t.kind with
  | number =>
      simp only [hkind] at hrun
      split at hrun
      · next hnumeral =>
          obtain ⟨_, n, hadvance, hpure⟩ := bind_eq_ok hrun
          obtain ⟨rfl, rfl⟩ := pure_eq_ok hpure
          refine ⟨_, advance_eq_ok hhead hadvance, ?_⟩
          rw [Token.terminal_of_kind_number hkind]
          exact .number _ _ hnumeral
      · exact absurd hrun refuse_ne_ok
  | identifier =>
      simp only [hkind] at hrun
      obtain ⟨_, n, hadvance, hpure⟩ := bind_eq_ok hrun
      obtain ⟨rfl, rfl⟩ := pure_eq_ok hpure
      refine ⟨_, advance_eq_ok hhead hadvance, ?_⟩
      rw [isIdentifier_iff.1 (by simp [isIdentifier, hkind])]
      exact .ident _
  | symbol =>
      simp only [hkind] at hrun
      split at hrun
      · next hlexeme =>
          obtain ⟨_, n, hopen, hrun'⟩ := bind_eq_ok hrun
          obtain ⟨f, n', hrun_inner, hclose⟩ := bind_eq_ok hrun'
          obtain ⟨u, n'', hu, htake, hpure⟩ := take_eq_ok hclose
          obtain ⟨rfl, rfl⟩ := pure_eq_ok hpure
          obtain ⟨ts, hconsumes, hderives⟩ := hinner hrun_inner
          have ht : t.terminal = .symbol "(" :=
            Token.isSymbol_iff.1 (by simpa [Token.isSymbol, Token.isSpelled, hkind] using hlexeme)
          rw [Token.isSymbol_iff.1 hu] at htake
          have hfirst := advanceWithin_eq_ok hhead hopen
          rw [ht] at hfirst
          exact ⟨_, hfirst.cons (hconsumes.trans htake), .parens hderives⟩
      · exact absurd hrun refuse_ne_ok
  | _ =>
      simp only [hkind] at hrun
      exact absurd hrun refuse_ne_ok

/-- A chain goes on with derivations of the layer, whatever it starts from. -/
theorem chain_sound {accepts : BinaryOperator → Bool} {kind : FaultKind}
    {operand : Parser Expression} {layer operandLayer : Layer}
    (hoperand : Sound operandLayer operand)
    (hstep : ∀ {op : BinaryOperator} {t : Terminal} {l r : Expression} {ts us : List Terminal},
      accepts op = true → t.Denotes op → l.Derives layer ts → r.Derives operandLayer us →
        Derives layer (.binary op l r) (ts ++ t :: us))
    (n : Nat) {lhs e : Expression} {s m : Progress} {ts : List Terminal}
    (hlhs : lhs.Derives layer ts) (h : chain accepts kind operand n lhs s = (.ok e, m)) :
    ∃ us, s.Consumes m us ∧ e.Derives layer (ts ++ us) := by
  -- an operator and its operand become a part of the phrase that the chain started from
  induction n generalizing lhs s ts with
  | zero =>
      obtain ⟨next, s', hnext, hrun⟩ := bind_eq_ok h
      cases next with
      | none =>
          obtain rfl := nextOperator_eq_none hnext
          obtain ⟨rfl, rfl⟩ := pure_eq_ok hrun
          exact ⟨[], .refl _, by simpa using hlhs⟩
      | some op => exact absurd hrun refuseDepth_ne_ok
  | succ n ih =>
      obtain ⟨next, s', hnext, hrun⟩ := bind_eq_ok h
      cases next with
      | none =>
          obtain rfl := nextOperator_eq_none hnext
          obtain ⟨rfl, rfl⟩ := pure_eq_ok hrun
          exact ⟨[], .refl _, by simpa using hlhs⟩
      | some op =>
          obtain ⟨rfl, haccepts, t, hhead, hdenotes⟩ := nextOperator_eq_some hnext
          obtain ⟨_, m₁, hdescend, hrun₁⟩ := bind_eq_ok hrun
          obtain ⟨_, m₂, hadvance, hrun₂⟩ := bind_eq_ok hrun₁
          obtain ⟨rhs, m₃, hrhs, hrun₃⟩ := bind_eq_ok hrun₂
          have hrest := descend_eq_ok hdescend
          have hop : s'.Consumes m₂ [t.terminal] :=
            (advanceWithin_eq_ok (hrest ▸ hhead) hadvance).of_rest_eq hrest.symm rfl
          obtain ⟨us, husConsumes, hus⟩ := hoperand hrhs
          obtain ⟨vs, hvsConsumes, hvs⟩ := ih (hstep haccepts hdenotes hlhs hus) hrun₃
          refine ⟨t.terminal :: (us ++ vs), hop.cons (husConsumes.trans hvsConsumes), ?_⟩
          simpa using hvs

theorem term_sound {inner : Parser Expression} (hinner : Sound .whole inner) :
    Sound .term (term inner) := by
  intro s m e h
  obtain ⟨first, s', hfirst, hchain⟩ := bind_eq_ok h
  obtain ⟨ts, htsConsumes, hts⟩ := factor_sound hinner hfirst
  obtain ⟨us, husConsumes, hus⟩ :=
    chain_sound (factor_sound hinner) .product maxDepth hts.ofFactor hchain
  exact ⟨ts ++ us, htsConsumes.trans husConsumes, hus⟩

/-- A sign is consumed if and only if there is one. -/
theorem sign_eq_ok {s m : Progress} {answer : Option Sign} (h : sign s = (.ok answer, m)) :
    match answer with
    | none => m = s
    | some sg => ∃ t : Terminal, s.Consumes m [t] ∧ t.Denotes sg.operator := by
  obtain ⟨next, s', hnext, hrun⟩ := bind_eq_ok h
  cases next with
  | none =>
      obtain ⟨rfl, rfl⟩ := pure_eq_ok hrun
      exact nextOperator_eq_none hnext
  | some op =>
      obtain ⟨rfl, hadditive, t, hhead, hdenotes⟩ := nextOperator_eq_some hnext
      obtain ⟨_, m₁, hadvance, hpure⟩ := bind_eq_ok hrun
      obtain ⟨rfl, rfl⟩ := pure_eq_ok hpure
      refine ⟨t.terminal, advanceWithin_eq_ok hhead hadvance, ?_⟩
      cases op <;> first | exact hdenotes | exact absurd hadditive (by decide)

theorem simpleExpression_sound {inner : Parser Expression} (hinner : Sound .whole inner) :
    Sound .simple (simpleExpression inner) := by
  intro s m e h
  obtain ⟨answer, s₁, hsign, hrun⟩ := bind_eq_ok h
  obtain ⟨first, s₂, hfirst, hchain⟩ := bind_eq_ok hrun
  obtain ⟨ts, htsConsumes, hts⟩ := term_sound hinner hfirst
  have hanswer := sign_eq_ok hsign
  cases answer with
  | none =>
      obtain rfl : s₁ = s := hanswer
      obtain ⟨us, husConsumes, hus⟩ :=
        chain_sound (term_sound hinner) .sum maxDepth hts.ofTerm hchain
      exact ⟨ts ++ us, htsConsumes.trans husConsumes, hus⟩
  | some sg =>
      obtain ⟨t, htConsumes, ht⟩ := hanswer
      obtain ⟨us, husConsumes, hus⟩ :=
        chain_sound (term_sound hinner) .sum maxDepth (.signed ht hts) hchain
      exact ⟨t :: ts ++ us, htConsumes.cons (htsConsumes.trans husConsumes), hus⟩

theorem comparison_sound {inner : Parser Expression} (hinner : Sound .whole inner) :
    Sound .whole (comparison inner) := by
  intro s m e h
  obtain ⟨lhs, s₁, hlhs, hrun⟩ := bind_eq_ok h
  obtain ⟨next, s₂, hnext, hrun₂⟩ := bind_eq_ok hrun
  obtain ⟨ts, htsConsumes, hts⟩ := simpleExpression_sound hinner hlhs
  cases next with
  | none =>
      obtain rfl := nextOperator_eq_none hnext
      obtain ⟨rfl, rfl⟩ := pure_eq_ok hrun₂
      exact ⟨ts, htsConsumes, .ofSimple hts⟩
  | some op =>
      obtain ⟨rfl, hrelational, t, hhead, hdenotes⟩ := nextOperator_eq_some hnext
      obtain ⟨_, s₃, hadvance, hrun₃⟩ := bind_eq_ok hrun₂
      obtain ⟨rhs, s₄, hrhs, hpure⟩ := bind_eq_ok hrun₃
      obtain ⟨rfl, rfl⟩ := pure_eq_ok hpure
      obtain ⟨us, husConsumes, hus⟩ := simpleExpression_sound hinner hrhs
      exact ⟨_, htsConsumes.trans ((advanceWithin_eq_ok hhead hadvance).cons husConsumes),
        .comparison hrelational hdenotes hts hus⟩

theorem expressionWithin_sound (levels : Nat) : Sound .whole (expressionWithin levels) := by
  induction levels with
  | zero => exact fun h => absurd h refuseDepth_ne_ok
  | succ levels ih =>
      intro s m e h
      obtain ⟨_, s₁, hdescend, hrun⟩ := bind_eq_ok h
      obtain ⟨ts, htsConsumes, hts⟩ := comparison_sound ih hrun
      exact ⟨ts, htsConsumes.of_rest_eq (descend_eq_ok hdescend).symm rfl, hts⟩

theorem rootExpression_sound : Sound .whole rootExpression := by
  intro s m e h
  obtain ⟨m', hrun, hrest⟩ := releasing_eq_ok h
  obtain ⟨ts, htsConsumes, hts⟩ := expressionWithin_sound maxDepth hrun
  exact ⟨ts, htsConsumes.of_rest_eq rfl hrest.symm, hts⟩

/-! ### How derivations are read -/

/-- The token to come denotes none of these operators. -/
def Stops (accepts : BinaryOperator → Bool) (rest : List Token) : Prop :=
  ∀ t ∈ rest.head?, ∀ op, t.terminal.Denotes op → accepts op = false

theorem Stops.mono {accepts accepts' : BinaryOperator → Bool} {rest : List Token}
    (h : Stops accepts rest) (himp : ∀ op, accepts' op = true → accepts op = true) :
    Stops accepts' rest := by
  intro t ht op hop
  cases hyes : accepts' op with
  | false => rfl
  | true => exact absurd (himp op hyes) (by simp [h t ht op hop])

theorem Stops.of_kind {accepts : BinaryOperator → Bool} {t : Token} {rest : List Token}
    (h : t.kind ≠ .operator) : Stops accepts (t :: rest) := by
  intro u hu op hop
  obtain rfl : t = u := by simpa using hu
  exact absurd hop.1 h

theorem Stops.of_denotes {accepts : BinaryOperator → Bool} {t : Token} {op : BinaryOperator}
    (ht : t.terminal.Denotes op) (haccepts : accepts op = false) (rest : List Token) :
    Stops accepts (t :: rest) := by
  intro u hu op' hop'
  obtain rfl : t = u := by simpa using hu
  rwa [hop'.eq ht]

theorem run_nextOperator_of_stops {accepts : BinaryOperator → Bool} {s : Progress}
    (h : Stops accepts s.rest) : nextOperator accepts s = (.ok none, s) := by
  rw [run_nextOperator]
  cases hhead : s.rest.head? with
  | none => rfl
  | some t =>
      simp only [Option.bind_some]
      split
      · next hkind =>
          have hnone : (BinaryOperator.ofSpelling? t.lexeme).filter accepts = none := by
            rw [Option.filter_eq_none_iff]
            intro op hop
            have hno := h t (by simp [hhead]) op
              ⟨eq_of_beq hkind, BinaryOperator.ofSpelling?_eq_some_iff.1 hop⟩
            simp [hno]
          rw [hnone]
      · rfl

theorem run_nextOperator_of_denotes {accepts : BinaryOperator → Bool} {t : Token}
    {op : BinaryOperator} (ht : t.terminal.Denotes op) (haccepts : accepts op = true)
    (ts : List Token) (last : Option Token) (depth : Nat) :
    nextOperator accepts ⟨t :: ts, last, depth⟩ = (.ok (some op), ⟨t :: ts, last, depth⟩) := by
  have hop : BinaryOperator.ofSpelling? t.lexeme = some op :=
    BinaryOperator.ofSpelling?_eq_some_iff.2 ht.2
  have hkind : t.kind = .operator := ht.1
  simp [run_nextOperator, hkind, hop, Option.filter, haccepts]

/-- Where no operator follows, a chain is at its end. -/
theorem run_chain_of_stops {accepts : BinaryOperator → Bool} {s : Progress}
    (h : Stops accepts s.rest) (kind : FaultKind) (operand : Parser Expression) (n : Nat)
    (lhs : Expression) : chain accepts kind operand n lhs s = (.ok lhs, s) := by
  cases n <;> exact run_bind_of_ok (run_nextOperator_of_stops h)

/-- The run goes on as a chain behind `e`, up to `rest` and on the level `depth`, if the levels
suffice; and else it is refused for its depth. -/
def LeadsTo (run : Except Fault Expression × Progress) (fits : Prop)
    (accepts : BinaryOperator → Bool) (kind : FaultKind) (operand : Parser Expression)
    (e : Expression) (rest : List Token) (depth : Nat) : Prop :=
  Settles run fits fun run => ∃ last n, maxDepth ≤ n + depth ∧
    run = chain accepts kind operand n e ⟨rest, last, depth⟩

section Chains

variable {accepts : BinaryOperator → Bool} {kind : FaultKind} {operand : Parser Expression}

theorem LeadsTo.reads {p : Parser Expression} {s : Progress} {fits : Prop} {e : Expression}
    {rest : List Token} {depth : Nat} (h : LeadsTo (p s) fits accepts kind operand e rest depth)
    (hstops : Stops accepts rest) : Reads p s fits e rest depth := by
  refine ⟨fun hfits => ?_, h.refused⟩
  obtain ⟨last, n, -, hrun⟩ := h.ends hfits
  exact ⟨last, hrun.trans (run_chain_of_stops hstops ..)⟩

/-- One more operator and operand of a chain. -/
theorem chain_leadsTo {op : BinaryOperator} {t : Token} {lhs rhs : Expression}
    {ts rest : List Token} {depth inner n : Nat} (haccepts : accepts op = true)
    (ht : t.terminal.Denotes op) (hts : ts ≠ []) (hn : maxDepth ≤ n + depth)
    (hoperand : depth < maxDepth → ∀ last, Reads operand ⟨ts ++ rest, last, depth + 1⟩
      (depth + 1 + inner ≤ maxDepth) rhs rest (depth + 1 + inner)) (last : Option Token) :
    LeadsTo (chain accepts kind operand n lhs ⟨t :: (ts ++ rest), last, depth⟩)
      (depth + 1 + inner ≤ maxDepth) accepts kind operand (.binary op lhs rhs) rest
      (depth + 1 + inner) := by
  have hnext := run_nextOperator_of_denotes ht haccepts (ts ++ rest) last depth
  cases n with
  | zero =>
      -- as many levels as the counter says are left: there are none
      have hrefused := refusedDepth_refuseDepth (α := Expression) ⟨t :: (ts ++ rest), last, depth⟩
      rw [LeadsTo, chain, run_bind_of_ok hnext]
      exact ⟨fun hfits => by omega, fun _ => hrefused⟩
  | succ n =>
      rw [LeadsTo, chain, run_bind_of_ok hnext]
      refine descend_settles (fun hfits => by show depth < maxDepth; omega) fun hlt => ?_
      rw [run_bind_of_ok (run_advanceWithin _ _ (by simp [hts]) ..)]
      refine (hoperand hlt (some t)).bind_good fun last' _ => .of_good ?_
      exact ⟨last', n, by omega, rfl⟩

/-- A chain that starts behind a phrase that is read. -/
theorem Reads.bind_leadsTo {α : Type} {p : Parser α} {f : α → Expression} {s : Progress}
    {fits : Prop} {a : α} {rest : List Token} {depth : Nat} (hp : Reads p s fits a rest depth) :
    LeadsTo ((p >>= fun a => chain accepts kind operand maxDepth (f a)) s) fits accepts kind
      operand (f a) rest depth :=
  hp.bind_good fun last _ => .of_good ⟨last, maxDepth, Nat.le_add_right .., rfl⟩

theorem LeadsTo.trans {run : Except Fault Expression × Progress} {fits fits' : Prop}
    {e e' : Expression} {rest rest' : List Token} {depth depth' : Nat}
    (h : LeadsTo run fits accepts kind operand e rest depth)
    (h' : ∀ last n, fits → maxDepth ≤ n + depth →
      LeadsTo (chain accepts kind operand n e ⟨rest, last, depth⟩) fits' accepts kind operand e'
        rest' depth')
    (himp : fits' → fits) : LeadsTo run fits' accepts kind operand e' rest' depth' := by
  constructor
  · intro hfits'
    obtain ⟨last, n, hn, rfl⟩ := h.ends (himp hfits')
    exact (h' last n (himp hfits') hn).ends hfits'
  · intro hnot
    by_cases hfits : fits
    · obtain ⟨last, n, hn, rfl⟩ := h.ends hfits
      exact (h' last n hfits hn).refused hnot
    · exact h.refused hfits

/-- `chain_leadsTo` behind a run that leads to the chain so far. -/
theorem LeadsTo.step {run : Except Fault Expression × Progress} {op : BinaryOperator} {t : Token}
    {lhs rhs : Expression} {ts rest : List Token} {depth inner : Nat}
    (h : LeadsTo run (depth ≤ maxDepth) accepts kind operand lhs (t :: ts ++ rest) depth)
    (haccepts : accepts op = true) (ht : t.terminal.Denotes op) (hts : ts ≠ [])
    (hoperand : depth < maxDepth → ∀ last, Reads operand ⟨ts ++ rest, last, depth + 1⟩
      (depth + 1 + inner ≤ maxDepth) rhs rest (depth + 1 + inner)) :
    LeadsTo run (depth + 1 + inner ≤ maxDepth) accepts kind operand (.binary op lhs rhs) rest
      (depth + 1 + inner) :=
  h.trans (fun last _ _ hn => chain_leadsTo haccepts ht hts hn hoperand last) (by omega)

end Chains

/-- How the tokens of a phrase are read inside an expression that may take `n` more levels.
Terms and simple expressions lead to the chain of operators behind them; the tighter
operators of a term must not go on there. -/
def ReadsAs (n : Nat) (ts : List Token) (depth : Nat) : Layer → Expression → Prop
  | .factor, e => ∀ rest last,
      Reads (factor (expressionWithin n)) ⟨ts ++ rest, last, depth⟩
        (depth + e.innerLevels (ts.map Token.terminal) ≤ maxDepth) e rest
        (depth + e.innerLevels (ts.map Token.terminal))
  | .term, e => ∀ rest last,
      LeadsTo (term (expressionWithin n) ⟨ts ++ rest, last, depth⟩)
        (depth + e.innerLevels (ts.map Token.terminal) ≤ maxDepth)
        isMultiplicative .expectedFactorAfterOperator (factor (expressionWithin n))
        e rest (depth + e.innerLevels (ts.map Token.terminal))
  | .simple, e => ∀ rest last, Stops isMultiplicative rest →
      LeadsTo (simpleExpression (expressionWithin n) ⟨ts ++ rest, last, depth⟩)
        (depth + e.innerLevels (ts.map Token.terminal) ≤ maxDepth)
        isAdditive .expectedTermAfterOperator (term (expressionWithin n))
        e rest (depth + e.innerLevels (ts.map Token.terminal))
  | .whole, e => ∀ rest last, Stops (Layer.continuedBy .whole) rest →
      Reads (comparison (expressionWithin n)) ⟨ts ++ rest, last, depth⟩
        (depth + e.innerLevels (ts.map Token.terminal) ≤ maxDepth) e rest
        (depth + e.innerLevels (ts.map Token.terminal))

/-- A phrase of the layer that is written with these terminals is read on every level, whenever
there are as many levels left as the counter says. -/
def Readable (layer : Layer) (e : Expression) (us : List Terminal) : Prop :=
  ∀ (n depth : Nat) (ts : List Token), ts.map Token.terminal = us → maxDepth ≤ n + depth →
    depth ≤ maxDepth → ReadsAs n ts depth layer e

theorem readable_number (kind : NumberKind) {numeral : String} (hnumeral : isNumeral numeral) :
    Readable .factor (.number kind numeral) [.number kind numeral] := by
  intro n depth ts hts _ hdepth rest last
  obtain ⟨t, rfl, ht⟩ := List.map_eq_singleton_iff.1 hts
  have hlevels := Expression.innerLevels_number kind numeral
  have hkind : t.kind = .number := by
    rw [Token.kind_eq, ht]
    cases kind <;> rfl
  have hlexeme : t.lexeme = numeral := by
    rw [show t.lexeme = t.terminal.lexeme from rfl, ht]
    cases kind <;> rfl
  have hcategory : (if t.category == .realNumber then NumberKind.real else .integer) = kind := by
    rw [show t.category = t.terminal.category from rfl, ht]
    cases kind <;> rfl
  refine Reads.of_iff (Reads.of_run (run_current ..) ?_) (iff_true_intro ?_)
  · simp only [hkind, hlexeme, hnumeral, if_true, hcategory]
    rw [hts, hlevels]
    exact .of_ok rfl
  · rw [hts, hlevels]
    exact hdepth

theorem readable_ident (name : String) : Readable .factor (.ident name) [.name name] := by
  intro n depth ts hts _ hdepth rest last
  obtain ⟨t, rfl, ht⟩ := List.map_eq_singleton_iff.1 hts
  have hlevels := Expression.innerLevels_ident name
  have hkind : t.kind = .identifier := by
    rw [Token.kind_eq, ht]
    rfl
  have hlexeme : t.lexeme = name := congrArg Terminal.lexeme ht
  refine Reads.of_iff (Reads.of_run (run_current ..) ?_) (iff_true_intro ?_)
  · simp only [hkind, hlexeme]
    rw [hts, hlevels]
    exact .of_ok rfl
  · rw [hts, hlevels]
    exact hdepth

/-- A readable comparison is read as an expression, which takes one more level. -/
theorem Readable.expressionWithin {e : Expression} {ts : List Token}
    (he : Readable .whole e (ts.map Token.terminal)) {n depth : Nat} (hn : maxDepth ≤ n + depth)
    {rest : List Token} (hstops : Stops (Layer.continuedBy .whole) rest) (last : Option Token) :
    Reads (expressionWithin n) ⟨ts ++ rest, last, depth⟩
      (depth + e.levels (ts.map Token.terminal) ≤ maxDepth) e rest
      (depth + e.levels (ts.map Token.terminal)) := by
  have hlevels : depth + e.levels (ts.map Token.terminal) =
      depth + 1 + e.innerLevels (ts.map Token.terminal) := by
    rw [Expression.levels]
    omega
  rw [hlevels]
  cases n with
  | zero =>
      -- the counter is used up only where every level is taken
      exact ⟨fun hfits => by omega, fun _ => refusedDepth_refuseDepth _⟩
  | succ n =>
      refine descend_settles (fun hfits => by show depth < maxDepth; omega) fun hlt => ?_
      exact he n (depth + 1) ts rfl (by omega) hlt rest last hstops

theorem Readable.parens {e : Expression} {us : List Terminal} (he : Readable .whole e us) :
    Readable .factor e (.symbol "(" :: (us ++ [.symbol ")"])) := by
  intro n depth ts hts hn hdepth rest last
  rw [hts, Expression.innerLevels_parens]
  obtain ⟨opening, tail, rfl, hopening, htail⟩ := List.map_eq_cons_iff.1 hts
  obtain ⟨inner, closings, rfl, rfl, hclosings⟩ := List.map_eq_append_iff.1 htail
  obtain ⟨closing, rfl, hclosing⟩ := List.map_eq_singleton_iff.1 hclosings
  have hkind : opening.kind = .symbol := by
    rw [Token.kind_eq, hopening]
    rfl
  have hlexeme : opening.lexeme = "(" := congrArg Terminal.lexeme hopening
  have hstops : Stops (Layer.continuedBy .whole) (closing :: rest) :=
    .of_kind (by rw [Token.kind_eq, hclosing]; simp [Terminal.symbol, Category.kind])
  rw [List.cons_append, List.append_assoc, List.singleton_append]
  refine Reads.of_run (run_current ..) ?_
  simp only [hkind, hlexeme, beq_self_eq_true, if_true]
  refine Reads.of_run (run_advanceWithin _ _ (by simp) ..) ?_
  refine (he.expressionWithin hn hstops _).bind_good fun last' _ => ?_
  exact Reads.take (Token.isSymbol_iff.2 hclosing) (.of_ok rfl)

theorem Readable.ofFactor {e : Expression} {us : List Terminal} (he : Readable .factor e us) :
    Readable .term e us := by
  intro n depth ts hts hn hdepth rest last
  exact Reads.bind_leadsTo (f := id) (he n depth ts hts hn hdepth rest last)

theorem Readable.product {op : BinaryOperator} {t : Terminal} {l r : Expression}
    {us vs : List Terminal} (hop : op.isMultiplicative = true) (ht : t.Denotes op)
    (hvs : vs ≠ []) (hl : Readable .term l us) (hr : Readable .factor r vs) :
    Readable .term (.binary op l r) (us ++ t :: vs) := by
  intro n depth ts hts hn hdepth rest last
  obtain ⟨left, tail, rfl, rfl, htail⟩ := List.map_eq_append_iff.1 hts
  obtain ⟨joint, right, rfl, rfl, rfl⟩ := List.map_eq_cons_iff.1 htail
  rw [hts, depth_add_innerLevels_binary (isRelational_of_isMultiplicative hop) ht,
    List.append_assoc]
  refine (hl n depth left rfl hn hdepth (joint :: right ++ rest) last).step hop ht
    (by simpa using hvs) fun hlt last' => ?_
  exact hr n _ right rfl (by omega) hlt rest last'

theorem Readable.ofTerm {e : Expression} {us : List Terminal} (he : Readable .term e us)
    (hderives : e.Derives .term us) : Readable .simple e us := by
  intro n depth ts hts hn hdepth rest last hstops
  obtain ⟨t, vs, rfl, hkind⟩ := hderives.starts
  obtain ⟨first, tail, rfl, hfirst, -⟩ := List.map_eq_cons_iff.1 hts
  -- a term does not begin with an operator, so no sign is read
  have hsign : sign ⟨first :: tail ++ rest, last, depth⟩ =
      (.ok none, ⟨first :: tail ++ rest, last, depth⟩) := by
    refine run_bind_of_ok (run_nextOperator_of_stops (.of_kind ?_))
    rw [Token.kind_eq, hfirst]
    exact hkind (.inr rfl)
  have hterm := (he n depth _ hts hn hdepth rest last).reads hstops
  rw [LeadsTo, simpleExpression, run_bind_of_ok hsign]
  exact hterm.bind_leadsTo (f := id)

theorem Readable.signed {sign : Sign} {t : Terminal} {e : Expression} {us : List Terminal}
    (ht : t.Denotes sign.operator) (hus : us ≠ []) (he : Readable .term e us) :
    Readable .simple (.signed sign e) (t :: us) := by
  intro n depth ts hts hn hdepth rest last hstops
  obtain ⟨first, tail, rfl, rfl, rfl⟩ := List.map_eq_cons_iff.1 hts
  rw [hts, Expression.innerLevels_signed ht]
  have hsign : Parser.sign ⟨first :: (tail ++ rest), last, depth⟩ =
      (.ok (some sign), ⟨tail ++ rest, some first, depth⟩) := by
    have hadditive : sign.operator.isAdditive = true := by cases sign <;> rfl
    rw [Parser.sign, run_bind_of_ok (run_nextOperator_of_denotes ht hadditive ..)]
    have htail : tail ++ rest ≠ [] := by
      intro hnil
      exact hus (by simp [(List.append_eq_nil_iff.1 hnil).1])
    refine (run_bind_of_ok (run_advanceWithin _ _ htail ..)).trans ?_
    cases sign <;> rfl
  have hterm := (he n depth tail rfl hn hdepth rest (some first)).reads hstops
  rw [List.cons_append, LeadsTo, simpleExpression, run_bind_of_ok hsign]
  exact hterm.bind_leadsTo (f := .signed sign)

theorem Readable.sum {op : BinaryOperator} {t : Terminal} {l r : Expression}
    {us vs : List Terminal} (hop : op.isAdditive = true) (ht : t.Denotes op)
    (hvs : vs ≠ []) (hl : Readable .simple l us) (hr : Readable .term r vs) :
    Readable .simple (.binary op l r) (us ++ t :: vs) := by
  intro n depth ts hts hn hdepth rest last hstops
  obtain ⟨left, tail, rfl, rfl, htail⟩ := List.map_eq_append_iff.1 hts
  obtain ⟨joint, right, rfl, rfl, rfl⟩ := List.map_eq_cons_iff.1 htail
  rw [hts, depth_add_innerLevels_binary (isRelational_of_isAdditive hop) ht, List.append_assoc]
  -- the last term of the left side must not go on with the operator
  have hjoint : Stops isMultiplicative (joint :: right ++ rest) :=
    .of_denotes ht (isMultiplicative_of_isAdditive hop) _
  refine (hl n depth left rfl hn hdepth (joint :: right ++ rest) last hjoint).step hop ht
    (by simpa using hvs) fun hlt last' => ?_
  exact (hr n _ right rfl (by omega) hlt rest last').reads hstops

/-- Whatever follows a simple expression, it is read up to there unless an operator goes on. -/
theorem Readable.reads_simple {e : Expression} {ts : List Token}
    (he : Readable .simple e (ts.map Token.terminal)) {n depth : Nat} (hn : maxDepth ≤ n + depth)
    (hdepth : depth ≤ maxDepth) {rest : List Token}
    (hstops : Stops (Layer.continuedBy .simple) rest) (last : Option Token) :
    Reads (simpleExpression (Parser.expressionWithin n)) ⟨ts ++ rest, last, depth⟩
      (depth + e.innerLevels (ts.map Token.terminal) ≤ maxDepth) e rest
      (depth + e.innerLevels (ts.map Token.terminal)) := by
  have hmultiplicative : Stops isMultiplicative rest :=
    hstops.mono fun op hop => by simp [Layer.continuedBy, hop]
  have hadditive : Stops isAdditive rest :=
    hstops.mono fun op hop => by simp [Layer.continuedBy, hop]
  exact (he n depth ts rfl hn hdepth rest last hmultiplicative).reads hadditive

theorem Readable.ofSimple {e : Expression} {us : List Terminal} (he : Readable .simple e us) :
    Readable .whole e us := by
  intro n depth ts hts hn hdepth rest last hstops
  subst hts
  have hsimple := he.reads_simple hn hdepth (hstops.mono fun _ _ => rfl) last
  have hrelational : Stops isRelational rest := hstops.mono fun _ _ => rfl
  refine hsimple.bind_good fun last' _ => ?_
  exact Reads.of_run (run_nextOperator_of_stops hrelational) (.of_ok rfl)

theorem Readable.comparison {op : BinaryOperator} {t : Terminal} {l r : Expression}
    {us vs : List Terminal} (hop : op.isRelational = true) (ht : t.Denotes op)
    (hvs : vs ≠ []) (hl : Readable .simple l us) (hr : Readable .simple r vs) :
    Readable .whole (.binary op l r) (us ++ t :: vs) := by
  intro n depth ts hts hn hdepth rest last hstops
  obtain ⟨left, tail, rfl, rfl, htail⟩ := List.map_eq_append_iff.1 hts
  obtain ⟨joint, right, rfl, rfl, rfl⟩ := List.map_eq_cons_iff.1 htail
  rw [hts, Expression.innerLevels_binary ht, hop, if_pos rfl, Nat.add_zero, ← Nat.add_assoc,
    List.append_assoc]
  -- the left side must not go on with the operator, and the right side ends before the next one
  have hjoint : Stops (Layer.continuedBy .simple) (joint :: right ++ rest) :=
    .of_denotes ht (continuedBy_simple_of_isRelational hop) _
  have hright : right ++ rest ≠ [] := by
    intro hnil
    exact hvs (by simp [(List.append_eq_nil_iff.1 hnil).1])
  refine Reads.of_iff ((hl.reads_simple hn hdepth hjoint last).bind fun last' hfits => ?_)
    (and_iff_right_of_imp fun hfits => Nat.le_trans (Nat.le_add_right ..) hfits).symm
  refine Reads.of_run (run_nextOperator_of_denotes ht hop ..) ?_
  refine Reads.of_run (run_advanceWithin _ _ hright ..) ?_
  refine (hr.reads_simple (by omega) hfits (hstops.mono fun _ _ => rfl) _).bind_good
    fun last'' _ => ?_
  exact Reads.of_ok rfl

/-- Every derivation of an expression is read as that expression. -/
theorem readableExpression_of_derives {layer : Layer} {e : Expression} {us : List Terminal}
    (h : e.Derives layer us) : Readable layer e us := by
  induction h with
  | number kind numeral hnumeral => exact readable_number kind hnumeral
  | ident name => exact readable_ident name
  | parens he ih => exact ih.parens
  | ofFactor he ih => exact ih.ofFactor
  | product hop ht hl hr ihl ihr => exact ihl.product hop ht hr.ne_nil ihr
  | ofTerm he ih => exact ih.ofTerm he
  | signed ht he ih => exact ih.signed ht he.ne_nil
  | sum hop ht hl hr ihl ihr => exact ihl.sum hop ht hr.ne_nil ihr
  | ofSimple he ih => exact ih.ofSimple
  | comparison hop ht hl hr ihl ihr => exact ihl.comparison hop ht hr.ne_nil ihr

/-- Tokens that derive an expression are read as that expression, and its levels are given back. -/
theorem reads_rootExpression {e : Expression} {ts : List Token}
    (he : e.Derives .whole (ts.map Token.terminal)) {rest : List Token}
    (hstops : Stops (Layer.continuedBy .whole) rest) (last : Option Token) (depth : Nat) :
    Reads rootExpression ⟨ts ++ rest, last, depth⟩
      (depth + e.levels (ts.map Token.terminal) ≤ maxDepth) e rest depth :=
  ((readableExpression_of_derives he).expressionWithin (Nat.le_add_right ..) hstops last).releasing

/-- Tokens that derive an expression are read as that expression up to their end. -/
theorem reads_expression {e : Expression} {ts : List Token}
    (he : e.Derives .whole (ts.map Token.terminal)) :
    Reads expression (.start ts) (e.levels (ts.map Token.terminal) ≤ maxDepth) e []
      (e.levels (ts.map Token.terminal)) := by
  have hstops : Stops (Layer.continuedBy .whole) [] := fun t ht => by simp at ht
  have hreads := (readableExpression_of_derives he).expressionWithin
    (Nat.le_refl (maxDepth + 0)) hstops none
  rwa [List.append_nil, Nat.zero_add] at hreads

/-- A sequence of tokens is one expression if and only if the expression is derived from it and its
levels suffice. -/
theorem expression_eq_ok_iff (ts : List Token) (e : Expression) :
    (∃ m, expression (.start ts) = (.ok e, m) ∧ m.rest = []) ↔
      e.Derives .whole (ts.map Token.terminal) ∧ e.levels (ts.map Token.terminal) ≤ maxDepth := by
  constructor
  · rintro ⟨m, hrun, hrest⟩
    obtain ⟨us, ⟨used, hused, rfl⟩, hderives⟩ := expressionWithin_sound maxDepth hrun
    rw [hrest, List.append_nil] at hused
    obtain rfl : ts = used := hused
    refine ⟨hderives, Decidable.byContradiction fun hfits => ?_⟩
    obtain ⟨fault, hfault, -⟩ := (reads_expression hderives).refused hfits
    rw [hrun] at hfault
    exact absurd hfault (by simp)
  · rintro ⟨hderives, hfits⟩
    obtain ⟨last, hrun⟩ := (reads_expression hderives).ends hfits
    exact ⟨_, hrun, rfl⟩

end Parser

end MiniPascal
