import Mathlib.Data.List.Forall2
import MiniPascal.Proofs.ProductionRuns

/-!
# Parsing looks at no places

Two sequences of tokens may have the same terminals at unrelated places.  Parsers on them
run in step: they answer alike, and what is still to come has the same terminals again,
on the same level.  The places come in only through faults, each of which points at the
token that its own run has come to (`Parser.Orderly`); so two faults point at tokens
with the same number.
-/

namespace MiniPascal

theorem Token.terminal_eq_iff {t u : Token} :
    t.terminal = u.terminal ↔ t.category = u.category ∧ t.lexeme = u.lexeme := by
  simp [terminal]

theorem Token.kind_eq_of_terminal_eq {t u : Token} (h : t.terminal = u.terminal) :
    t.kind = u.kind :=
  congrArg Category.kind (terminal_eq_iff.1 h).1

/-- The same terminals are to come, on the same level of nesting. -/
structure Progress.Alike (s u : Progress) : Prop where
  rest : s.rest.map Token.terminal = u.rest.map Token.terminal
  depth : s.depth = u.depth

theorem Progress.Alike.length_eq {s u : Progress} (h : s.Alike u) :
    s.rest.length = u.rest.length := by
  simpa using congrArg List.length h.rest

/-- Either nothing is to come, or two tokens with the same terminal. -/
theorem Progress.Alike.rest_cases {s u : Progress} (h : s.Alike u) :
    (s.rest = [] ∧ u.rest = []) ∨ ∃ t ts t' ts', s.rest = t :: ts ∧ u.rest = t' :: ts' ∧
      t.terminal = t'.terminal ∧ ts.map Token.terminal = ts'.map Token.terminal := by
  have hrest := h.rest
  cases hs : s.rest with
  | nil => exact .inl ⟨rfl, by simpa [hs, eq_comm] using hrest⟩
  | cons t ts =>
      rw [hs, List.map_cons] at hrest
      obtain ⟨t', ts', hu, ht, hts⟩ := List.map_eq_cons_iff.1 hrest.symm
      exact .inr ⟨t, ts, t', ts', rfl, hu, ht.symm, hts.symm⟩

/-- The faults differ in their places at most. -/
structure Fault.Alike (f g : Fault) : Prop where
  kind : f.kind = g.kind
  lexeme : f.lexeme = g.lexeme

theorem Fault.alike_atToken (kind : FaultKind) {t u : Token} (h : t.terminal = u.terminal) :
    (atToken kind t).Alike (atToken kind u) :=
  ⟨rfl, congrArg some (Token.terminal_eq_iff.1 h).2⟩

theorem Progress.alike_exhausted (kind : FaultKind) (s u : Progress) :
    (s.exhausted kind).Alike (u.exhausted kind) := by
  unfold exhausted
  cases s.last <;> cases u.last <;> exact ⟨rfl, rfl⟩

/-- The test of a token looks at its terminal only. -/
def Token.TestsTerminal (accepts : Token → Bool) : Prop :=
  ∀ t u, t.terminal = u.terminal → accepts t = accepts u

theorem Token.testsTerminal_isSpelled (kind : TokenKind) (lexeme : String) :
    TestsTerminal (·.isSpelled kind lexeme) := by
  intro t u h
  simp only [isSpelled, kind_eq_of_terminal_eq h, (terminal_eq_iff.1 h).2]

theorem Token.testsTerminal_isSymbol (lexeme : String) : TestsTerminal (·.isSymbol lexeme) :=
  testsTerminal_isSpelled .symbol lexeme

theorem Token.testsTerminal_isReservedWord (word : String) :
    TestsTerminal (·.isReservedWord word) :=
  testsTerminal_isSpelled .reservedWord word

theorem Token.testsTerminal_isIdentifier : TestsTerminal Parser.isIdentifier := by
  intro t u h
  simp only [Parser.isIdentifier, kind_eq_of_terminal_eq h]

theorem Token.testsTerminal_category (category : Category) :
    TestsTerminal (·.category == category) := by
  intro t u h
  simp only [(terminal_eq_iff.1 h).1]

namespace Parser

variable {α β : Type}

/-- Values that are related, or faults that are alike. -/
inductive AnswersAlike (R : α → α → Prop) : Except Fault α → Except Fault α → Prop
  | ok {a b : α} (h : R a b) : AnswersAlike R (.ok a) (.ok b)
  | error {f g : Fault} (h : f.Alike g) : AnswersAlike R (.error f) (.error g)

/-- Wherever the two parsers start alike, they answer alike and end alike. -/
def InStep (R : α → α → Prop) (p q : Parser α) : Prop :=
  ∀ s u : Progress, s.Alike u → AnswersAlike R (p s).1 (q u).1 ∧ (p s).2.Alike (q u).2

/-- The parser answers the same wherever its tokens stand, but for the places of faults. -/
abbrev IgnoresPlaces (p : Parser α) : Prop :=
  InStep (· = ·) p p

namespace InStep

variable {R : α → α → Prop} {Q : β → β → Prop} {p q : Parser α} {f g : α → Parser β}

theorem pure {a b : α} (h : R a b) : InStep R (pure a) (pure b) :=
  fun _ _ hsu => ⟨.ok h, hsu⟩

theorem answer (a : α) : IgnoresPlaces (Pure.pure a : Parser α) :=
  .pure rfl

theorem refuse (kind : FaultKind) {t u : Token} (h : t.terminal = u.terminal) :
    InStep R (refuse kind t) (refuse kind u) :=
  fun _ _ hsu => ⟨.error (Fault.alike_atToken kind h), hsu⟩

theorem refuseDepth : InStep R Parser.refuseDepth Parser.refuseDepth := by
  intro s u h
  refine ⟨.error ?_, h⟩
  unfold Progress.tooDeep
  rcases h.rest_cases with ⟨hs, hu⟩ | ⟨t, ts, t', ts', hs, hu, ht, -⟩
  · rw [hs, hu]
    exact Progress.alike_exhausted _ s u
  · rw [hs, hu]
    exact Fault.alike_atToken _ ht

theorem bind (hp : InStep R p q) (hf : ∀ a b, R a b → InStep Q (f a) (g b)) :
    InStep Q (p >>= f) (q >>= g) := by
  intro s u h
  obtain ⟨hanswer, hafter⟩ := hp s u h
  rw [run_bind, run_bind]
  rcases hrun : p s with ⟨answer, m⟩
  rcases hrun' : q u with ⟨answer', m'⟩
  rw [hrun, hrun'] at hanswer hafter
  cases hanswer with
  | ok hab => exact hf _ _ hab m m' hafter
  | error hfault => exact ⟨.error hfault, hafter⟩

/-- As `bind`, when the first answers are the same. -/
theorem next (hp : IgnoresPlaces p) (hf : ∀ a, InStep Q (f a) (g a)) :
    InStep Q (p >>= f) (p >>= g) :=
  hp.bind fun a _ h => h ▸ hf a

theorem peek :
    InStep (fun t u => t.map Token.terminal = u.map Token.terminal) Parser.peek Parser.peek := by
  intro s u h
  refine ⟨.ok ?_, h⟩
  rw [← List.head?_map, h.rest, List.head?_map]

theorem current (kind : FaultKind) :
    InStep (fun t u => t.terminal = u.terminal) (current kind) (current kind) := by
  intro s u h
  unfold Parser.current
  rcases h.rest_cases with ⟨hs, hu⟩ | ⟨t, ts, t', ts', hs, hu, ht, -⟩
  · rw [hs, hu]
    exact ⟨.error (Progress.alike_exhausted kind s u), h⟩
  · rw [hs, hu]
    exact ⟨.ok ht, h⟩

theorem advance : IgnoresPlaces advance := by
  intro s u h
  unfold Parser.advance
  rcases h.rest_cases with ⟨hs, hu⟩ | ⟨t, ts, t', ts', hs, hu, -, hts⟩
  · rw [hs, hu]
    exact ⟨.error ⟨rfl, rfl⟩, h⟩
  · rw [hs, hu]
    exact ⟨.ok rfl, hts, h.depth⟩

theorem expect {accepts : Token → Bool} (haccepts : Token.TestsTerminal accepts)
    (kind : FaultKind) :
    InStep (fun t u => t.terminal = u.terminal) (expect accepts kind) (expect accepts kind) := by
  refine (current kind).bind fun t u h => ?_
  rw [haccepts t u h]
  split
  · exact .pure h
  · exact .refuse kind h

theorem advanceWithin (kind : FaultKind) : IgnoresPlaces (advanceWithin kind) := by
  refine (current kind).bind fun t u h => .next .advance fun _ => ?_
  refine .bind .peek fun next next' hnext => ?_
  cases next <;> cases next' <;> simp only [Option.map_none, Option.map_some, reduceCtorEq] at hnext
  · exact .refuse kind h
  · exact .answer ()

theorem isNext {accepts : Token → Bool} (haccepts : Token.TestsTerminal accepts) :
    IgnoresPlaces (isNext accepts) := by
  refine .bind .peek fun next next' hnext => ?_
  cases next <;> cases next' <;> simp only [Option.map_none, Option.map_some, reduceCtorEq] at hnext
  · exact .answer false
  · exact .pure (haccepts _ _ (Option.some.inj hnext))

theorem nextOperator (accepts : BinaryOperator → Bool) : IgnoresPlaces (nextOperator accepts) := by
  refine .bind .peek fun next next' hnext => ?_
  cases next <;> cases next' <;> simp only [Option.map_none, Option.map_some, reduceCtorEq] at hnext
  · exact .answer none
  · next t u =>
      have hterminal := Option.some.inj hnext
      dsimp only
      rw [Token.kind_eq_of_terminal_eq hterminal, (Token.terminal_eq_iff.1 hterminal).2]
      split <;> exact .answer _

theorem descend : IgnoresPlaces descend := by
  intro s u h
  unfold Parser.descend
  rw [h.depth]
  split
  · exact ⟨.ok rfl, h.rest, rfl⟩
  · exact refuseDepth s u h

theorem nested (hp : IgnoresPlaces p) : IgnoresPlaces (nested p) := by
  intro s u h
  obtain ⟨hanswer, hafter⟩ := descend s u h
  unfold Parser.nested
  rcases hrun : Parser.descend s with ⟨answer, m⟩
  rcases hrun' : Parser.descend u with ⟨answer', m'⟩
  rw [hrun, hrun'] at hanswer hafter
  cases hanswer with
  | ok =>
      obtain ⟨hanswer, hinner⟩ := hp m m' hafter
      exact ⟨hanswer, hinner.rest, congrArg (· - 1) hinner.depth⟩
  | error hfault => exact ⟨.error hfault, hafter⟩

theorem releasing (hp : IgnoresPlaces p) : IgnoresPlaces (releasing p) := by
  intro s u h
  obtain ⟨hanswer, hafter⟩ := hp s u h
  exact ⟨hanswer, hafter.rest, h.depth⟩

theorem manyUpTo {more : Parser Bool} (hmore : IgnoresPlaces more) (hp : IgnoresPlaces p)
    (n : Nat) : IgnoresPlaces (manyUpTo more p n) := by
  induction n with
  | zero => exact hmore.next fun _ => .answer []
  | succ n ih =>
      refine hmore.next fun yes => ?_
      split
      · exact hp.next fun a => ih.next fun as => .answer (a :: as)
      · exact .answer []

/-- There may be as many items as tokens, and of those there are as many. -/
theorem many {more : Parser Bool} (hmore : IgnoresPlaces more) (hp : IgnoresPlaces p) :
    IgnoresPlaces (many more p) := by
  intro s u h
  unfold Parser.many
  rw [h.length_eq]
  exact manyUpTo hmore hp u.rest.length s u h

/-- A token is accepted, consumed, and used for its terminal only. -/
theorem takeWithin {accepts : Token → Bool} (haccepts : Token.TestsTerminal accepts)
    {kind after : FaultKind} {f g : Token → Parser β}
    (hf : ∀ t u, t.terminal = u.terminal → InStep Q (f t) (g u)) :
    InStep Q (do let t ← Parser.expect accepts kind; Parser.advanceWithin after; f t)
      (do let t ← Parser.expect accepts kind; Parser.advanceWithin after; g t) :=
  (expect haccepts kind).bind fun t u h => (advanceWithin after).next fun _ => hf t u h

/-- As `takeWithin`, when the token may be the last one. -/
theorem take {accepts : Token → Bool} (haccepts : Token.TestsTerminal accepts)
    {kind : FaultKind} {f g : Token → Parser β}
    (hf : ∀ t u, t.terminal = u.terminal → InStep Q (f t) (g u)) :
    InStep Q (do let t ← Parser.expect accepts kind; Parser.advance; f t)
      (do let t ← Parser.expect accepts kind; Parser.advance; g t) :=
  (expect haccepts kind).bind fun t u h => advance.next fun _ => hf t u h

end InStep

/-! ### Expressions -/

theorem factor_ignoresPlaces {inner : Parser Expression} (hinner : IgnoresPlaces inner) :
    IgnoresPlaces (factor inner) := by
  refine (InStep.current _).bind fun t u h => ?_
  obtain ⟨hcategory, hlexeme⟩ := Token.terminal_eq_iff.1 h
  rw [Token.kind_eq_of_terminal_eq h]
  cases u.kind with
  | number =>
      dsimp only
      rw [hlexeme, hcategory]
      split
      · exact .next .advance fun _ => .answer _
      · exact .refuse _ h
  | identifier =>
      dsimp only
      rw [hlexeme]
      exact .next .advance fun _ => .answer _
  | symbol =>
      dsimp only
      rw [hlexeme]
      split
      · exact .next (.advanceWithin _) fun _ => hinner.next fun e =>
          .take (Token.testsTerminal_isSymbol _) fun _ _ _ => .answer e
      · exact .refuse _ h
  | _ => exact .refuse _ h

theorem chain_ignoresPlaces {accepts : BinaryOperator → Bool} {kind : FaultKind}
    {operand : Parser Expression} (hoperand : IgnoresPlaces operand) (n : Nat)
    (lhs : Expression) : IgnoresPlaces (chain accepts kind operand n lhs) := by
  induction n generalizing lhs with
  | zero =>
      refine .next (.nextOperator accepts) fun next => ?_
      cases next with
      | none => exact .answer lhs
      | some op => exact .refuseDepth
  | succ n ih =>
      refine .next (.nextOperator accepts) fun next => ?_
      cases next with
      | none => exact .answer lhs
      | some op =>
          exact .next .descend fun _ => .next (.advanceWithin kind) fun _ =>
            hoperand.next fun rhs => ih (.binary op lhs rhs)

theorem term_ignoresPlaces {inner : Parser Expression} (hinner : IgnoresPlaces inner) :
    IgnoresPlaces (term inner) :=
  (factor_ignoresPlaces hinner).next fun first =>
    chain_ignoresPlaces (factor_ignoresPlaces hinner) maxDepth first

theorem sign_ignoresPlaces : IgnoresPlaces sign := by
  refine .next (.nextOperator _) fun next => ?_
  cases next with
  | none => exact .answer none
  | some op => exact .next (.advanceWithin _) fun _ => .answer _

theorem simpleExpression_ignoresPlaces {inner : Parser Expression}
    (hinner : IgnoresPlaces inner) : IgnoresPlaces (simpleExpression inner) :=
  sign_ignoresPlaces.next fun _ => (term_ignoresPlaces hinner).next fun _ =>
    chain_ignoresPlaces (term_ignoresPlaces hinner) maxDepth _

theorem comparison_ignoresPlaces {inner : Parser Expression} (hinner : IgnoresPlaces inner) :
    IgnoresPlaces (comparison inner) := by
  refine (simpleExpression_ignoresPlaces hinner).next fun lhs => .next (.nextOperator _)
    fun next => ?_
  cases next with
  | none => exact .answer lhs
  | some op =>
      exact .next (.advanceWithin _) fun _ =>
        (simpleExpression_ignoresPlaces hinner).next fun _ => .answer _

theorem expressionWithin_ignoresPlaces (levels : Nat) :
    IgnoresPlaces (expressionWithin levels) := by
  induction levels with
  | zero => exact .refuseDepth
  | succ levels ih => exact .next .descend fun _ => comparison_ignoresPlaces ih

theorem rootExpression_ignoresPlaces : IgnoresPlaces rootExpression :=
  .releasing (expressionWithin_ignoresPlaces maxDepth)

/-! ### Declarations -/

theorem listedName_ignoresPlaces (kind : FaultKind) : IgnoresPlaces (listedName kind) :=
  .takeWithin Token.testsTerminal_isIdentifier fun _ _ h => .pure (Token.terminal_eq_iff.1 h).2

theorem identifierList_ignoresPlaces : IgnoresPlaces identifierList := by
  have hothers : IgnoresPlaces (many (isNext (·.isSymbol ",")) nextName) :=
    .many (.isNext (Token.testsTerminal_isSymbol _))
      (.next (.advanceWithin _) fun _ => listedName_ignoresPlaces _)
  exact (listedName_ignoresPlaces _).next fun first => hothers.next fun others =>
    .answer (first :: others)

theorem typeName_ignoresPlaces : IgnoresPlaces typeName := by
  refine (InStep.current _).bind fun t u h => ?_
  rw [Token.kind_eq_of_terminal_eq h, (Token.terminal_eq_iff.1 h).2]
  split
  · exact .answer _
  · exact .refuse _ h

theorem declaration_ignoresPlaces : IgnoresPlaces declaration :=
  identifierList_ignoresPlaces.next fun _ =>
    .takeWithin (Token.testsTerminal_isSymbol _) fun _ _ _ =>
      typeName_ignoresPlaces.next fun _ => .next (.advanceWithin _) fun _ => .answer _

theorem declarations_ignoresPlaces : IgnoresPlaces declarations := by
  have hline : IgnoresPlaces declarationLine :=
    .next (.advanceWithin _) fun _ => declaration_ignoresPlaces.next fun d =>
      .take (Token.testsTerminal_isSymbol _) fun _ _ _ => .answer d
  exact .many (.isNext (Token.testsTerminal_isReservedWord _)) hline

/-! ### Statements -/

theorem assignment_ignoresPlaces : IgnoresPlaces assignment := by
  refine .takeWithin Token.testsTerminal_isIdentifier fun target target' htarget => ?_
  rw [(Token.terminal_eq_iff.1 htarget).2]
  exact .takeWithin (Token.testsTerminal_category _) fun _ _ _ =>
    rootExpression_ignoresPlaces.next fun _ =>
      .take (Token.testsTerminal_isSymbol _) fun _ _ _ => .answer _

theorem compound_ignoresPlaces {inner : Parser Statement} (hinner : IgnoresPlaces inner) :
    IgnoresPlaces (compound inner) := by
  have hmore : IgnoresPlaces beforeEnd :=
    (InStep.current _).bind fun t u h =>
      .pure (congrArg not (Token.testsTerminal_isReservedWord "end" t u h))
  exact .takeWithin (Token.testsTerminal_isReservedWord _) fun _ _ _ =>
    .next (.many hmore hinner) fun statements => .next .advance fun _ => .answer statements

theorem conditional_ignoresPlaces {inner : Parser Statement} (hinner : IgnoresPlaces inner) :
    IgnoresPlaces (conditional inner) := by
  refine .takeWithin (Token.testsTerminal_isReservedWord _) fun _ _ _ => ?_
  refine rootExpression_ignoresPlaces.next fun condition => ?_
  refine .takeWithin (Token.testsTerminal_isReservedWord _) fun _ _ _ => ?_
  refine hinner.next fun branch => ?_
  refine .next (.isNext (Token.testsTerminal_isReservedWord _)) fun follows => ?_
  split
  · exact .next (.advanceWithin _) fun _ => hinner.next fun _ => .answer _
  · exact .answer _

theorem repetitive_ignoresPlaces {inner : Parser Statement} (hinner : IgnoresPlaces inner) :
    IgnoresPlaces (repetitive inner) :=
  .takeWithin (Token.testsTerminal_isReservedWord _) fun _ _ _ =>
    rootExpression_ignoresPlaces.next fun _ =>
      .takeWithin (Token.testsTerminal_isReservedWord _) fun _ _ _ =>
        hinner.next fun _ => .answer _

theorem statementBody_ignoresPlaces {inner : Parser Statement} (hinner : IgnoresPlaces inner) :
    IgnoresPlaces (statementBody inner) := by
  refine (InStep.current _).bind fun t u h => ?_
  rw [Token.kind_eq_of_terminal_eq h, (Token.terminal_eq_iff.1 h).2]
  split
  · exact assignment_ignoresPlaces
  · split
    · exact declarations_ignoresPlaces.next fun _ => .answer _
    · exact (compound_ignoresPlaces hinner).next fun _ => .answer _
    · exact conditional_ignoresPlaces hinner
    · exact repetitive_ignoresPlaces hinner
    · exact .refuse _ h
  · exact .refuse _ h

theorem statementWithin_ignoresPlaces (levels : Nat) :
    IgnoresPlaces (statementWithin levels) := by
  induction levels with
  | zero => exact .refuseDepth
  | succ levels ih => exact .nested (statementBody_ignoresPlaces ih)

theorem statement_ignoresPlaces : IgnoresPlaces statement :=
  statementWithin_ignoresPlaces maxDepth

/-! ### Programs -/

theorem block_ignoresPlaces : IgnoresPlaces block :=
  declarations_ignoresPlaces.next fun _ =>
    (compound_ignoresPlaces statement_ignoresPlaces).next fun _ => .answer _

theorem program_ignoresPlaces : IgnoresPlaces program := by
  refine .takeWithin (Token.testsTerminal_isReservedWord _) fun _ _ _ => ?_
  refine .takeWithin Token.testsTerminal_isIdentifier fun name name' hname => ?_
  rw [(Token.terminal_eq_iff.1 hname).2]
  refine .takeWithin (Token.testsTerminal_isSymbol _) fun _ _ _ => ?_
  refine block_ignoresPlaces.next fun b => ?_
  refine .take (Token.testsTerminal_isSymbol _) fun _ _ _ => ?_
  refine .bind .peek fun next next' hnext => ?_
  cases next <;> cases next' <;> simp only [Option.map_none, Option.map_some, reduceCtorEq] at hnext
  · exact .answer _
  · exact .refuse _ (Option.some.inj hnext)

end Parser

open MiniPascal.Parser

namespace Production

theorem parser_ignoresPlaces (p : Production) : IgnoresPlaces p.parser := by
  have hexpression : IgnoresPlaces Parser.expression := expressionWithin_ignoresPlaces maxDepth
  have hstatement : IgnoresPlaces Parser.statement := statement_ignoresPlaces
  cases p with
  | program => exact program_ignoresPlaces.next fun _ => .answer _
  | block => exact block_ignoresPlaces.next fun _ => .answer _
  | declarations => exact declarations_ignoresPlaces.next fun _ => .answer _
  | declaration => exact declaration_ignoresPlaces.next fun _ => .answer _
  | identifierList => exact identifierList_ignoresPlaces.next fun _ => .answer _
  | compound => exact (compound_ignoresPlaces hstatement).next fun _ => .answer _
  | statement => exact hstatement.next fun _ => .answer _
  | assignment => exact assignment_ignoresPlaces.next fun _ => .answer _
  | conditional => exact (conditional_ignoresPlaces hstatement).next fun _ => .answer _
  | repetitive => exact (repetitive_ignoresPlaces hstatement).next fun _ => .answer _
  | expression => exact hexpression.next fun _ => .answer _
  | simpleExpression => exact (simpleExpression_ignoresPlaces hexpression).next fun _ => .answer _
  | term => exact (term_ignoresPlaces hexpression).next fun _ => .answer _
  | factor => exact (factor_ignoresPlaces hexpression).next fun _ => .answer _

end Production

/-! ### Where the faults point -/

/-- A fault points at the token behind those that were consumed, or at the last one if there are no
more; it points nowhere only if there are no tokens. -/
theorem Fault.PointsInto.placedAt_or {held : Bool} {ts : List Token} {m : Progress} {fault : Fault}
    (h : fault.PointsInto m) (hreaches : (Progress.start ts).Reaches held m) :
    (∃ t, ts[min (ts.length - m.rest.length) (ts.length - 1)]? = some t ∧ fault.IsPlacedAt t) ∨
      ts = [] ∧ fault = .unplaced fault.kind := by
  obtain ⟨used, hused, hlast⟩ := hreaches.consumes
  have hts : ts = used ++ m.rest := hused
  have hcount : ts.length - m.rest.length = used.length := by
    rw [hts, List.length_append, Nat.add_sub_cancel]
  rw [hcount]
  cases hrest : m.rest with
  | cons t rest =>
      simp only [PointsInto, hrest] at h
      rw [hrest] at hts
      have hindex : min used.length (ts.length - 1) = used.length := by
        simp only [hts, List.length_append, List.length_cons]
        omega
      rw [hindex, h]
      exact .inl ⟨t, by simp [hts], isPlacedAt_atToken _ t⟩
  | nil =>
      rw [hrest, List.append_nil] at hts
      subst hts
      have hlastToken : m.last = ts.getLast? := hlast.trans (Option.or_none ..)
      rw [Nat.min_eq_right (Nat.sub_le ..), ← List.getLast?_eq_getElem?]
      cases hend : ts.getLast? with
      | none =>
          simp only [PointsInto, hrest, hlastToken, hend] at h
          exact .inr ⟨List.getLast?_eq_none_iff.1 hend, h⟩
      | some t =>
          simp only [PointsInto, hrest, hlastToken, hend] at h
          exact .inl ⟨t, rfl, h⟩

/-- The faults are of one kind and quote the same lexeme.  Each is placed at the token with the same
number in its own sequence, or nowhere if there are no tokens. -/
structure Fault.Corresponds (ts us : List Token) (f g : Fault) : Prop where
  kind : f.kind = g.kind
  lexeme : f.lexeme = g.lexeme
  places : (∃ (i : Nat) (t u : Token), ts[i]? = some t ∧ us[i]? = some u ∧
      f.IsPlacedAt t ∧ g.IsPlacedAt u) ∨
    ts = [] ∧ us = [] ∧ f = .unplaced f.kind ∧ g = .unplaced g.kind

/-- Two sequences of tokens are answered with the same value, or with faults that correspond. -/
inductive AgreeUpToPlaces {α : Type} (ts us : List Token) : Except Fault α → Except Fault α → Prop
  | ok (a : α) : AgreeUpToPlaces ts us (.ok a) (.ok a)
  | error {f g : Fault} (h : f.Corresponds ts us g) : AgreeUpToPlaces ts us (.error f) (.error g)

variable {ts us : List Token}

/-- From places that were reached in step, a parser that ignores them agrees with itself. -/
theorem Parser.Orderly.agrees {α : Type} {held : Bool} {p : Parser α} {s u : Progress}
    (horderly : p.Orderly held s) (horderly' : p.Orderly held u) (hp : IgnoresPlaces p)
    (hlength : ts.length = us.length) (h : s.Alike u) (hs : (Progress.start ts).Reaches true s)
    (hu : (Progress.start us).Reaches true u) : AgreeUpToPlaces ts us (p s).1 (p u).1 := by
  obtain ⟨hanswer, hafter⟩ := hp s u h
  have hreaches := hs.trans horderly.reaches.keeping
  have hreaches' := hu.trans horderly'.reaches.keeping
  generalize hrun : (p s).1 = answer at hanswer
  generalize hrun' : (p u).1 = answer' at hanswer
  cases hanswer with
  | ok hvalue => exact hvalue ▸ .ok _
  | @error f g hfault =>
      refine .error ⟨hfault.kind, hfault.lexeme, ?_⟩
      -- as many tokens are left in both sequences, so the numbers are the same
      have hplaced := (horderly.faults f hrun).2.placedAt_or hreaches
      have hplaced' := (horderly'.faults g hrun').2.placedAt_or hreaches'
      rw [← hlength, ← hafter.length_eq] at hplaced'
      rcases hplaced with ⟨t, ht, hf⟩ | ⟨rfl, hf⟩
      · rcases hplaced' with ⟨t', ht', hg⟩ | ⟨rfl, -⟩
        · exact .inl ⟨_, t, t', ht, ht', hf, hg⟩
        · rw [List.length_eq_zero_iff.1 hlength] at ht
          simp at ht
      · obtain rfl : us = [] := List.length_eq_zero_iff.1 hlength.symm
        rcases hplaced' with ⟨t', ht', -⟩ | ⟨-, hg⟩
        · simp at ht'
        · exact .inr ⟨rfl, rfl, hf, hg⟩

namespace Production

theorem parseEach_agrees (hlength : ts.length = us.length) (ps : List Production)
    {s u : Progress} (h : s.Alike u) (hs : (Progress.start ts).Reaches true s)
    (hu : (Progress.start us).Reaches true u) :
    List.Forall₂ (AgreeUpToPlaces ts us) (parseEach ps s).1 (parseEach ps u).1 ∧
      (parseEach ps s).2.Alike (parseEach ps u).2 := by
  induction ps generalizing s u with
  | nil => exact ⟨.nil, h⟩
  | cons p ps ih =>
      have horderly := p.parser_orderly s
      have horderly' := p.parser_orderly u
      have hp := parser_ignoresPlaces p
      obtain ⟨hothers, hafter⟩ := ih (hp s u h).2 (hs.trans horderly.reaches.keeping)
        (hu.trans horderly'.reaches.keeping)
      exact ⟨.cons (horderly.agrees horderly' hp hlength h hs hu) hothers, hafter⟩

end Production

/-- What is still to come is a known number of the last tokens. -/
theorem Progress.Reaches.rest_eq_drop {held : Bool} {m : Progress}
    (h : (Progress.start ts).Reaches held m) : m.rest = ts.drop (ts.length - m.rest.length) := by
  obtain ⟨used, hused, -⟩ := h.consumes
  have hts : ts = used ++ m.rest := hused
  conv => rhs; rw [hts]
  rw [List.length_append, Nat.add_sub_cancel, List.drop_left]

/-- **Layout does not matter to the parser.**  If two sequences of tokens have the same terminals,
at whatever places, they are parsed to the same program, or refused with faults of one kind that
quote the same lexeme, each at the place that its own sequence has at one and the same number.  So
it is for every answer to a history of calls, after which both parsers have come equally far and
stand on the same level. -/
theorem parse_agrees_upToPlaces {ts us : List Token}
    (hterminals : ts.map Token.terminal = us.map Token.terminal) :
    AgreeUpToPlaces ts us (parseTokens ts) (parseTokens us) ∧
      ∀ ps : List Production,
        List.Forall₂ (AgreeUpToPlaces ts us) (Production.parseEach ps (Progress.start ts)).1
            (Production.parseEach ps (Progress.start us)).1 ∧
          (∃ k ≤ ts.length, (Production.parseEach ps (Progress.start ts)).2.rest = ts.drop k ∧
            (Production.parseEach ps (Progress.start us)).2.rest = us.drop k) ∧
          (Production.parseEach ps (Progress.start ts)).2.depth =
            (Production.parseEach ps (Progress.start us)).2.depth := by
  have hstart : (Progress.start ts).Alike (Progress.start us) := ⟨hterminals, rfl⟩
  have hlength : ts.length = us.length := hstart.length_eq
  constructor
  · cases ts with
    | nil =>
        -- without tokens there is no place to point at
        obtain rfl : us = [] := List.length_eq_zero_iff.1 hlength.symm
        exact .error ⟨rfl, rfl, .inr ⟨rfl, rfl, rfl, rfl⟩⟩
    | cons t ts =>
        have hne : us ≠ [] := by
          rintro rfl
          simp at hlength
        rw [parseTokens_of_ne_nil (List.cons_ne_nil t ts), parseTokens_of_ne_nil hne]
        exact (Parser.program_orderly _).agrees (Parser.program_orderly _)
          Parser.program_ignoresPlaces hlength hstart (.refl _) (.refl _)
  · intro ps
    obtain ⟨hanswers, hafter⟩ :=
      Production.parseEach_agrees hlength ps hstart (.refl _) (.refl _)
    refine ⟨hanswers, ⟨_, Nat.sub_le _ _, (Production.parseEach_reaches ps _).rest_eq_drop, ?_⟩,
      hafter.depth⟩
    rw [hlength, hafter.length_eq]
    exact (Production.parseEach_reaches ps _).rest_eq_drop

/-- The tokens of a program in which a semicolon is missing, on one line. -/
def unendedTokens : List Token :=
  [⟨.reservedWord, "program", 1, 7⟩, ⟨.identifier, "P", 1, 9⟩, ⟨.symbol, ";", 1, 10⟩,
    ⟨.reservedWord, "begin", 1, 16⟩, ⟨.identifier, "x", 1, 18⟩,
    ⟨.assignmentOperator, ":=", 1, 21⟩, ⟨.integerNumber, "1", 1, 23⟩,
    ⟨.reservedWord, "end", 1, 27⟩, ⟨.symbol, ".", 1, 28⟩]

/-- The same tokens, each on a line of its own. -/
def unendedLines : List Token :=
  unendedTokens.mapIdx fun i t => ⟨t.category, t.lexeme, i + 1, t.lexeme.length⟩

/-- The fault is at `end`, wherever that stands; calls that go on behind it agree too. -/
theorem parse_agrees_upToPlaces_unended :
    parseTokens unendedTokens = .error ⟨.expectedSemicolon, some "end", some 1, some 27⟩ ∧
      parseTokens unendedLines = .error ⟨.expectedSemicolon, some "end", some 8, some 3⟩ ∧
      unendedTokens.map Token.terminal = unendedLines.map Token.terminal ∧
      AgreeUpToPlaces unendedTokens unendedLines (parseTokens unendedTokens)
        (parseTokens unendedLines) ∧
      List.Forall₂ (AgreeUpToPlaces unendedTokens unendedLines)
        (Production.parseEach [.program, .factor] (Progress.start unendedTokens)).1
        (Production.parseEach [.program, .factor] (Progress.start unendedLines)).1 := by
  have hterminals : unendedTokens.map Token.terminal = unendedLines.map Token.terminal := rfl
  obtain ⟨hparse, hcalls⟩ := parse_agrees_upToPlaces hterminals
  exact ⟨rfl, rfl, hterminals, hparse, (hcalls [.program, .factor]).1⟩

end MiniPascal
