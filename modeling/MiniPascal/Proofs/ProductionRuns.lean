import MiniPascal.Parser.Production
import MiniPascal.Proofs.Acceptance
import MiniPascal.Proofs.OrderlyRuns

/-!
# Runs of productions

Every production is orderly from wherever it starts.  So after any history of calls,
failed ones included, the parser is still at a place among the tokens that is not before
the one where it was, and on a level that it may be on (`Production.call_isOrderly`).
-/

namespace MiniPascal

namespace Parser

variable {α : Type} {held : Bool}

/-! ### Expressions -/

theorem factor_orderly {inner : Parser Expression} (hinner : ∀ m, inner.Orderly true m)
    (s : Progress) : (factor inner).Orderly true s := by
  refine .bind (.current (by decide)) fun t m h => ?_
  obtain ⟨rfl, hhead⟩ := current_eq_ok h
  have hinvalid : ∀ kind, (Fault.atToken kind t).PointsInto m :=
    fun kind => Fault.pointsInto_atToken kind hhead
  cases t.kind with
  | number =>
      dsimp only
      split
      · exact .bind (.advance hhead) fun _ _ _ => .pure _
      · exact .refuse (by decide) (hinvalid _)
  | identifier => exact .bind (.advance hhead) fun _ _ _ => .pure _
  | symbol =>
      dsimp only
      split
      · exact .bind (.advanceWithin (by decide)) fun _ _ _ => .bind (hinner _) fun _ _ _ =>
          .take (by decide) fun _ _ => .pure _
      · exact .refuse (by decide) (hinvalid _)
  | _ => exact .refuse (by decide) (hinvalid _)

theorem chain_orderly {accepts : BinaryOperator → Bool} {kind : FaultKind}
    {operand : Parser Expression} (hkind : kind ≠ .noTokensToParse)
    (hoperand : ∀ m, operand.Orderly true m) (n : Nat) (lhs : Expression) (s : Progress) :
    (chain accepts kind operand n lhs).Orderly true s := by
  induction n generalizing lhs s with
  | zero =>
      refine .bind .nextOperator fun next m _ => ?_
      cases next with
      | none => exact .pure lhs
      | some op => exact .refuseDepth
  | succ n ih =>
      refine .bind .nextOperator fun next m _ => ?_
      cases next with
      | none => exact .pure lhs
      | some op =>
          exact .bind .descend fun _ _ _ => .bind (.advanceWithin hkind) fun _ _ _ =>
            .bind (hoperand _) fun rhs _ _ => ih (.binary op lhs rhs) _

theorem term_orderly {inner : Parser Expression} (hinner : ∀ m, inner.Orderly true m)
    (s : Progress) : (term inner).Orderly true s :=
  .bind (factor_orderly hinner s) fun first _ _ =>
    chain_orderly (by decide) (factor_orderly hinner) maxDepth first _

theorem sign_orderly (s : Progress) : sign.Orderly true s := by
  refine .bind .nextOperator fun next m _ => ?_
  cases next with
  | none => exact .pure none
  | some op => exact .bind (.advanceWithin (by decide)) fun _ _ _ => .pure _

theorem simpleExpression_orderly {inner : Parser Expression}
    (hinner : ∀ m, inner.Orderly true m) (s : Progress) :
    (simpleExpression inner).Orderly true s :=
  .bind (sign_orderly s) fun _ _ _ => .bind (term_orderly hinner _) fun _ _ _ =>
    chain_orderly (by decide) (term_orderly hinner) maxDepth _ _

theorem comparison_orderly {inner : Parser Expression} (hinner : ∀ m, inner.Orderly true m)
    (s : Progress) : (comparison inner).Orderly true s := by
  refine .bind (simpleExpression_orderly hinner s) fun lhs m _ => ?_
  refine .bind .nextOperator fun next m' _ => ?_
  cases next with
  | none => exact .pure lhs
  | some op =>
      exact .bind (.advanceWithin (by decide)) fun _ _ _ =>
        .bind (simpleExpression_orderly hinner _) fun _ _ _ => .pure _

theorem Sound.shortens {layer : Expression.Layer} {p : Parser Expression} (hp : Sound layer p) :
    p.Shortens :=
  shortens_of_consumes fun h => by
    obtain ⟨ts, hconsumes, hderives⟩ := hp h
    exact ⟨ts, hconsumes, hderives.ne_nil⟩

theorem expressionWithin_orderly (levels : Nat) (s : Progress) :
    (expressionWithin levels).Orderly true s := by
  induction levels generalizing s with
  | zero => exact .refuseDepth
  | succ levels ih => exact .bind .descend fun _ _ _ => comparison_orderly ih _

theorem rootExpression_orderly (s : Progress) : rootExpression.Orderly false s :=
  (expressionWithin_orderly maxDepth s).releasing

/-! ### Declarations -/

theorem isNext_tests (accepts : Token → Bool) : (isNext accepts).Tests := by
  intro s m yes h
  rw [run_isNext] at h
  obtain ⟨hyes, rfl⟩ := Prod.mk.inj h
  obtain rfl := Except.ok.inj hyes
  exact ⟨rfl, fun hrest => by simp [hrest]⟩

/-- What begins with a token that has to be consumed shortens the tokens to come. -/
theorem shortens_of_advanceWithin {kind : FaultKind} {f : Unit → Parser α}
    (hf : ∀ m, (f ()).Orderly held m) : (advanceWithin kind >>= f).Shortens := by
  intro s m a h
  obtain ⟨_, m', hadvance, hrun⟩ := bind_eq_ok h
  obtain ⟨t, m'', hcurrent, -⟩ := bind_eq_ok hadvance
  obtain ⟨-, hhead⟩ := current_eq_ok hcurrent
  have hshorter := (advanceWithin_eq_ok hhead hadvance).length_lt (by simp)
  have hle := (hf m').reaches.length_le
  rw [hrun] at hle
  exact Nat.lt_of_le_of_lt hle hshorter

theorem listedName_orderly {kind : FaultKind} (hkind : kind ≠ .noTokensToParse) (s : Progress) :
    (listedName kind).Orderly false s :=
  .takeWithin hkind (by decide) fun _ _ => .pure _

theorem nextName_orderly (s : Progress) : nextName.Orderly false s :=
  .bind (.advanceWithin (by decide)) fun _ _ _ => listedName_orderly (by decide) _

theorem identifierList_orderly (s : Progress) : identifierList.Orderly false s := by
  have hothers : ∀ m, (many (isNext (·.isSymbol ",")) nextName).Orderly false m := fun m =>
    .many (isNext_tests _) (shortens_of_advanceWithin (listedName_orderly (by decide)))
      (fun _ => .isNext) nextName_orderly
  exact .bind (listedName_orderly (by decide) s) fun _ m _ => .bind (hothers m) fun _ _ _ =>
    .pure _

theorem identifierList_shortens : identifierList.Shortens :=
  shortens_of_consumes fun {s m names} h => by
    obtain ⟨hne, hconsumes⟩ := identifierList_sound h
    obtain ⟨name, names, rfl⟩ := List.exists_cons_of_ne_nil hne
    rw [Declaration.intersperse_comma] at hconsumes
    exact ⟨_, hconsumes, List.cons_ne_nil _ _⟩

theorem typeName_orderly (s : Progress) : typeName.Orderly false s := by
  refine .bind (.current (by decide)) fun t m h => ?_
  obtain ⟨rfl, hhead⟩ := current_eq_ok h
  split
  · exact .pure _
  · exact .refuse (by decide) (Fault.pointsInto_atToken _ hhead)

theorem declaration_orderly (s : Progress) : declaration.Orderly false s :=
  .bind (identifierList_orderly s) fun _ _ _ => .takeWithin (by decide) (by decide) fun _ _ =>
    .bind (typeName_orderly _) fun _ _ _ => .bind (.advanceWithin (by decide)) fun _ _ _ => .pure _

theorem declaration_shortens : declaration.Shortens :=
  shortens_of_consumes fun h => ⟨_, (declaration_sound h).2, by simp [Declaration.terminals]⟩

/-- What follows the `var` of a declaration. -/
theorem declared_orderly (s : Progress) :
    (do
      let d ← declaration
      let _ ← expect (·.isSymbol ";") .expectedSemicolon
      advance
      pure d : Parser Declaration).Orderly false s :=
  .bind (declaration_orderly s) fun _ _ _ => .take (by decide) fun _ _ => .pure _

theorem declarationLine_orderly (s : Progress) : declarationLine.Orderly false s :=
  .bind (.advanceWithin (by decide)) fun _ _ _ => declared_orderly _

theorem declarations_orderly (s : Progress) : declarations.Orderly false s :=
  .many (isNext_tests _) (shortens_of_advanceWithin declared_orderly) (fun _ => .isNext)
    declarationLine_orderly

/-! ### Statements -/

theorem SoundStatement.shortens {p : Parser Statement} (hp : SoundStatement p) : p.Shortens :=
  shortens_of_consumes fun h => by
    obtain ⟨ts, ns, hconsumes, hderives, -, -⟩ := hp h
    exact ⟨ts, hconsumes, hderives.ne_nil⟩

theorem beforeEnd_tests : beforeEnd.Tests := by
  intro s m more h
  obtain ⟨rfl, t, hhead, -⟩ := beforeEnd_eq_ok h
  exact ⟨rfl, fun hrest => by simp [hrest] at hhead⟩

theorem assignment_orderly (s : Progress) : assignment.Orderly false s :=
  .takeWithin (by decide) (by decide) fun _ _ => .takeWithin (by decide) (by decide) fun _ _ =>
    .bind (rootExpression_orderly _) fun _ _ _ => .take (by decide) fun _ _ => .pure _

theorem compound_orderly {inner : Parser Statement} (hsound : SoundStatement inner)
    (hinner : ∀ m, inner.Orderly false m) (s : Progress) : (compound inner).Orderly false s := by
  refine .takeWithin (by decide) (by decide) fun _ m => ?_
  have hmore : ∀ m, beforeEnd.Orderly false m :=
    fun m => .bind (.current (by decide)) fun _ _ _ => .pure _
  have hshortens : inner.Shortens := SoundStatement.shortens hsound
  refine .bind (.many beforeEnd_tests hshortens hmore hinner) fun ss m' hrun => ?_
  -- the statements are at an end only where `end` follows
  obtain ⟨-, -, t, -, -, -, hhead, -⟩ := statements_sound hsound _ (Nat.le_refl _) hrun
  exact .bind (.advance hhead) fun _ _ _ => .pure ss

theorem compound_shortens {inner : Parser Statement} (hinner : SoundStatement inner) :
    (compound inner).Shortens :=
  shortens_of_consumes fun h => by
    obtain ⟨ts, ns, hconsumes, -, -⟩ := compound_sound hinner h
    exact ⟨_, hconsumes, by simp⟩

theorem conditional_orderly {inner : Parser Statement} (hinner : ∀ m, inner.Orderly false m)
    (s : Progress) : (conditional inner).Orderly false s := by
  refine .takeWithin (by decide) (by decide) fun _ m => ?_
  refine .bind (rootExpression_orderly m) fun condition m₁ _ => ?_
  refine .takeWithin (by decide) (by decide) fun _ m₂ => ?_
  refine .bind (hinner m₂) fun branch m₃ _ => .bind .isNext fun _ m₄ _ => ?_
  split
  · exact .bind (.advanceWithin (by decide)) fun _ _ _ => .bind (hinner _) fun _ _ _ => .pure _
  · exact .pure _

theorem repetitive_orderly {inner : Parser Statement} (hinner : ∀ m, inner.Orderly false m)
    (s : Progress) : (repetitive inner).Orderly false s :=
  .takeWithin (by decide) (by decide) fun _ m => .bind (rootExpression_orderly m) fun _ _ _ =>
    .takeWithin (by decide) (by decide) fun _ _ => .bind (hinner _) fun _ _ _ => .pure _

theorem statementBody_orderly {inner : Parser Statement} (hsound : SoundStatement inner)
    (hinner : ∀ m, inner.Orderly false m) (s : Progress) :
    (statementBody inner).Orderly false s := by
  refine .bind (.current (by decide)) fun t m h => ?_
  obtain ⟨rfl, hhead⟩ := current_eq_ok h
  have hrefuse : (refuse .invalidCommand t : Parser Statement).Orderly false m :=
    .refuse (by decide) (Fault.pointsInto_atToken _ hhead)
  cases t.kind with
  | identifier => exact assignment_orderly m
  | reservedWord =>
      dsimp only
      split
      · exact .bind (declarations_orderly m) fun _ _ _ => .pure _
      · exact .bind (compound_orderly hsound hinner m) fun _ _ _ => .pure _
      · exact conditional_orderly hinner m
      · exact repetitive_orderly hinner m
      · exact hrefuse
  | _ => exact hrefuse

theorem statementWithin_orderly (levels : Nat) (s : Progress) :
    (statementWithin levels).Orderly false s := by
  induction levels generalizing s with
  | zero => exact .refuseDepth
  | succ levels ih =>
      exact .nested (statementBody_orderly (statementWithin_sound levels) ih)

/-! ### Programs -/

theorem block_orderly (s : Progress) : block.Orderly false s :=
  .bind (declarations_orderly s) fun _ _ _ =>
    .bind (compound_orderly (statementWithin_sound maxDepth) (statementWithin_orderly maxDepth) _)
      fun _ _ _ => .pure _

theorem block_shortens : block.Shortens :=
  shortens_of_consumes fun h => by
    obtain ⟨ts, ns, hconsumes, -⟩ := block_sound h
    exact ⟨_, hconsumes, by simp⟩

theorem program_orderly (s : Progress) : program.Orderly false s := by
  refine .takeWithin (by decide) (by decide) fun _ _ => ?_
  refine .takeWithin (by decide) (by decide) fun _ _ => ?_
  refine .takeWithin (by decide) (by decide) fun _ m => ?_
  refine .bind (block_orderly m) fun b m' _ => .take (by decide) fun _ m'' => ?_
  refine .bind .peek fun following n h => ?_
  obtain ⟨hfollowing, rfl⟩ := Prod.mk.inj h
  split
  · exact .refuse (by decide) (Fault.pointsInto_atToken _ (by simpa using hfollowing))
  · exact .pure _

theorem program_shortens : program.Shortens :=
  shortens_of_consumes fun h => by
    obtain ⟨-, ts, ns, hconsumes, hderives, -⟩ := program_consumes h
    exact ⟨ts, hconsumes, hderives.ne_nil⟩

end Parser

open MiniPascal.Parser

namespace Production

/-- Only expressions keep the levels of nesting that they take. -/
def keepsLevels : Production → Bool
  | expression | simpleExpression | term | factor => true
  | _ => false

theorem parser_orderly (p : Production) (s : Progress) : p.parser.Orderly p.keepsLevels s := by
  have hexpression : ∀ m, Parser.expression.Orderly true m := expressionWithin_orderly maxDepth
  have hstatement : ∀ m, Parser.statement.Orderly false m := statementWithin_orderly maxDepth
  have hsound : SoundStatement Parser.statement := statementWithin_sound maxDepth
  cases p with
  | program => exact (program_orderly s).answer _
  | block => exact (block_orderly s).answer _
  | declarations => exact (declarations_orderly s).answer _
  | declaration => exact (declaration_orderly s).answer _
  | identifierList => exact (identifierList_orderly s).answer _
  | compound => exact (compound_orderly hsound hstatement s).answer _
  | statement => exact (hstatement s).answer _
  | assignment => exact (assignment_orderly s).answer _
  | conditional => exact (conditional_orderly hstatement s).answer _
  | repetitive => exact (repetitive_orderly hstatement s).answer _
  | expression => exact (hexpression s).answer _
  | simpleExpression => exact (simpleExpression_orderly hexpression s).answer _
  | term => exact (term_orderly hexpression s).answer _
  | factor => exact (factor_orderly hexpression s).answer _

/-- Every success but that of a run of declarations consumes a token. -/
theorem parser_shortens {p : Production} (hp : p ≠ declarations) : p.parser.Shortens := by
  have hexpression : Sound .whole Parser.expression := expressionWithin_sound maxDepth
  have hstatement : SoundStatement Parser.statement := statementWithin_sound maxDepth
  cases p with
  | program => exact program_shortens.answer _
  | block => exact block_shortens.answer _
  | declarations => exact absurd rfl hp
  | declaration => exact declaration_shortens.answer _
  | identifierList => exact identifierList_shortens.answer _
  | compound => exact (compound_shortens hstatement).answer _
  | statement => exact (SoundStatement.shortens hstatement).answer _
  | assignment => exact (SoundStatement.shortens assignment_sound).answer _
  | conditional => exact (SoundStatement.shortens (conditional_sound hstatement)).answer _
  | repetitive => exact (SoundStatement.shortens (repetitive_sound hstatement)).answer _
  | expression => exact (Sound.shortens hexpression).answer _
  | simpleExpression => exact (Sound.shortens (simpleExpression_sound hexpression)).answer _
  | term => exact (Sound.shortens (term_sound hexpression)).answer _
  | factor => exact (Sound.shortens (factor_sound hexpression)).answer _

/-- A history of calls reaches a place further on, on a level that is taken from those there are. -/
theorem parseEach_reaches (ps : List Production) (s : Progress) :
    s.Reaches true (parseEach ps s).2 := by
  induction ps generalizing s with
  | nil => exact .refl s
  | cons p ps ih => exact (p.parser_orderly s).reaches.keeping.trans (ih (p.parser s).2)

/-- What a call of `p` on the tokens `ts` keeps when it starts from `s`, whatever it answers. -/
structure OrderlyCall (ts : List Token) (p : Production) (s : Progress) : Prop where
  /-- Call and return are at places among the tokens, of which the second is not before the first;
  a success moves on, except that there may be no declarations. -/
  moves : ∃ i j, s.rest = ts.drop i ∧ (p.parser s).2.rest = ts.drop j ∧ i ≤ j ∧ j ≤ ts.length ∧
    ((p.parser s).1.isOk = true → p ≠ declarations → i < j)
  /-- Nothing tried to consume a token behind the last one. -/
  stays : ∀ fault, (p.parser s).1 = .error fault → fault.kind ≠ .noTokensToParse
  deepens : s.depth ≤ (p.parser s).2.depth
  bounded : (p.parser s).2.depth ≤ maxDepth
  returns : p.keepsLevels = false → (p.parser s).2.depth = s.depth

theorem parseEach_orderlyCall (ts : List Token) (before : List Production) (p : Production) :
    OrderlyCall ts p (parseEach before (Progress.start ts)).2 := by
  have hbefore := parseEach_reaches before (Progress.start ts)
  generalize (parseEach before (Progress.start ts)).2 = s at hbefore ⊢
  have hcall := p.parser_orderly s
  obtain ⟨used, hused, -⟩ := hbefore.consumes
  obtain ⟨used', hused', -⟩ := hcall.reaches.consumes
  have hts : ts = used ++ (used' ++ (p.parser s).2.rest) := hused.trans (by rw [hused'])
  refine ⟨⟨used.length, used.length + used'.length, ?_, ?_, Nat.le_add_right .., ?_, ?_⟩,
    fun fault h => (hcall.faults fault h).1, hcall.reaches.deepens,
    hcall.reaches.bounded (hbefore.bounded (Nat.zero_le _)), hcall.reaches.returns⟩
  · rw [hts, List.drop_left, hused']
  · rw [hts, ← List.append_assoc, ← List.length_append, List.drop_left]
  · rw [hts]
    simp only [List.length_append]
    omega
  · intro hok hp
    have hshorter := (parser_shortens hp).length_lt hok
    rw [hused', List.length_append] at hshorter
    omega

/-- The body of a statement ends on the level that was taken for it. -/
theorem statementBody_depth (levels : Nat) {s inner : Progress}
    (h : Parser.descend s = (.ok (), inner)) :
    s.depth < maxDepth ∧ (statementBody (statementWithin levels) inner).2.depth = s.depth + 1 := by
  by_cases hdepth : s.depth < maxDepth
  · obtain ⟨-, rfl⟩ := Prod.mk.inj ((run_descend hdepth).symm.trans h)
    have hbody := statementBody_orderly (statementWithin_sound levels)
      (statementWithin_orderly levels) ⟨s.rest, s.last, s.depth + 1⟩
    exact ⟨hdepth, hbody.reaches.returns rfl⟩
  · rw [descend, if_neg hdepth] at h
    exact absurd h refuseDepth_ne_ok

/-- **The state of a parser.**  After any calls on some tokens, in any order and also after faults,
one more call is orderly.  Inside it too no level is taken that there is not: when a statement gives
back the level that it took, that level is still taken, wherever the statement ended, and the levels
that an expression gives back are above the one that it started on. -/
theorem call_isOrderly (ts : List Token) (before : List Production) (p : Production) :
    OrderlyCall ts p (parseEach before (Progress.start ts)).2 ∧
      (∀ levels (s inner : Progress), Parser.descend s = (.ok (), inner) → s.depth < maxDepth ∧
        (statementBody (statementWithin levels) inner).2.depth = s.depth + 1) ∧
      ∀ s : Progress, s.depth ≤ maxDepth → s.depth ≤ (Parser.expression s).2.depth ∧
        (Parser.expression s).2.depth ≤ maxDepth := by
  refine ⟨parseEach_orderlyCall ts before p, fun levels s inner => statementBody_depth levels,
    fun s hdepth => ?_⟩
  have hreaches := (expressionWithin_orderly maxDepth s).reaches
  exact ⟨hreaches.deepens, hreaches.bounded hdepth⟩

end Production

end MiniPascal
