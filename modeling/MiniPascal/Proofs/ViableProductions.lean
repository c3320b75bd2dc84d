import MiniPascal.Proofs.Acceptance
import MiniPascal.Proofs.ViablePrefixes

/-!
# Viable prefixes of productions

Every production parses the phrases that the grammar derives for it: what it consumes
before it is refused begins one of them (`program_parses`).  The soundness of what is
consumed with success comes from the modules on parsing.
-/

namespace MiniPascal

variable {L : List Terminal → Prop} {ts us before : List Terminal}

/-- Every additive operator is spelled as a sign. -/
theorem Sign.exists_operator {op : BinaryOperator} (h : op.isAdditive = true) :
    ∃ sg : Sign, sg.operator = op := by
  cases op <;> first | exact ⟨.plus, rfl⟩ | exact ⟨.minus, rfl⟩ | exact absurd h (by decide)

/-- A name is a phrase of every layer. -/
theorem Expression.derives_ident (layer : Expression.Layer) (name : String) :
    (ident name).Derives layer [.name name] := by
  cases layer with
  | factor => exact .ident name
  | term => exact .ofFactor (.ident name)
  | simple => exact .ofTerm (.ofFactor (.ident name))
  | whole => exact .ofSimple (.ofTerm (.ofFactor (.ident name)))

namespace Parser

/-! ### Expressions -/

section Expressions

open Expression (Layer Derives)

variable {inner : Parser Expression}

/-- A phrase of every layer can follow where nothing was consumed. -/
theorem begins_expression (layer : Layer) : Begins (Spells (Derives layer)) [] :=
  ⟨[.name "x"], _, Expression.derives_ident layer "x"⟩

theorem factor_parses (hinner : inner.Parses (Derives .whole)) :
    (factor inner).Parses (Derives .factor) := by
  refine ⟨factor_sound hinner.sound, fun s => ?_⟩
  refine .look (begins_expression .factor) (current_unmoved ..) fun t h => ?_
  obtain ⟨-, hhead⟩ := current_eq_ok h
  cases hkind : t.kind with
  | number =>
      simp only
      split
      · next hnumeral =>
          refine .step (consumes_advance hhead) fun m => .pure ?_ _
          rw [Token.terminal_of_kind_number hkind]
          exact .of_read (.number _ _ hnumeral)
      · exact .refuse (begins_expression .factor) _
  | identifier =>
      have ht : t.terminal = .name t.lexeme := isIdentifier_iff.1 (by simp [isIdentifier, hkind])
      refine .step (consumes_advance hhead) fun m => .pure ?_ _
      rw [ht]
      exact .of_read (.ident t.lexeme)
  | symbol =>
      simp only
      split
      · next hlexeme =>
          have ht : t.terminal = .symbol "(" :=
            Token.isSymbol_iff.1 (by simpa [Token.isSymbol, Token.isSpelled, hkind] using hlexeme)
          refine .step (consumes_advanceWithin _ hhead) fun m => ?_
          refine hinner.bind fun e ts he m' => .take (exists_isSymbol ")") fun u hu m'' => ?_
          rw [ht, Token.isSymbol_iff.1 hu]
          exact .pure (.of_read (by simpa using he.parens)) _
      · exact .refuse (begins_expression .factor) _
  | _ => exact .refuse (begins_expression .factor) _

/-- A chain goes on with phrases of the layer, whatever phrase it starts from. -/
theorem chain_viable {accepts : BinaryOperator → Bool} {kind : FaultKind}
    {operand : Parser Expression} {layer operandLayer : Layer}
    (hoperand : operand.Parses (Derives operandLayer))
    (hstep : ∀ {op : BinaryOperator} {t : Terminal} {l r : Expression} {ts us : List Terminal},
      accepts op = true → t.Denotes op → l.Derives layer ts → r.Derives operandLayer us →
        Derives layer (.binary op l r) (ts ++ t :: us))
    (n : Nat) {lhs : Expression} (hlhs : lhs.Derives layer before) (s : Progress) :
    (chain accepts kind operand n lhs).Viable (Spells (Derives layer)) before s := by
  have hbegins : ∀ {e : Expression} {ts : List Terminal}, e.Derives layer ts →
      Begins (Spells (Derives layer)) ts := fun he => .of_read he
  induction n generalizing lhs before s with
  | zero =>
      refine .look (hbegins hlhs) (nextOperator_unmoved ..) fun next h => ?_
      cases next with
      | none => exact .pure (hbegins hlhs) _
      | some op => exact .refuseDepth (hbegins hlhs)
  | succ n ih =>
      refine .look (hbegins hlhs) (nextOperator_unmoved ..) fun next h => ?_
      cases next with
      | none => exact .pure (hbegins hlhs) _
      | some op =>
          obtain ⟨-, haccepts, t, hhead, hdenotes⟩ := nextOperator_eq_some h
          refine .descend fun m hm => .step (consumes_advanceWithin _ (hm ▸ hhead)) fun m' => ?_
          refine hoperand.bind fun rhs us hrhs m'' => ?_
          have hbinary := hstep haccepts hdenotes hlhs hrhs
          rw [List.append_assoc]
          exact ih hbinary m''

theorem term_parses (hinner : inner.Parses (Derives .whole)) :
    (term inner).Parses (Derives .term) :=
  ⟨term_sound hinner.sound, fun _ => (factor_parses hinner).bind fun _ _ he m =>
    chain_viable (factor_parses hinner) .product maxDepth he.ofFactor m⟩

theorem sign_viable (s : Progress) :
    sign.Viable (Spells (Derives .simple)) [] s := by
  refine .look (begins_expression .simple) (nextOperator_unmoved ..) fun next h => ?_
  cases next with
  | none => exact .pure (begins_expression .simple) _
  | some op =>
      obtain ⟨-, hadditive, t, hhead, hdenotes⟩ := nextOperator_eq_some h
      obtain ⟨sg, rfl⟩ := Sign.exists_operator hadditive
      exact .step (consumes_advanceWithin _ hhead) fun m =>
        .pure ⟨[.name "x"], _, .signed hdenotes (Expression.derives_ident .term "x")⟩ _

theorem simpleExpression_parses (hinner : inner.Parses (Derives .whole)) :
    (simpleExpression inner).Parses (Derives .simple) := by
  refine ⟨simpleExpression_sound hinner.sound, fun s => ?_⟩
  refine .bind (sign_viable s) fun answer m h => ?_
  have hanswer := sign_eq_ok h
  cases answer with
  | none =>
      obtain rfl : m = s := hanswer
      exact ⟨[], .refl m, (term_parses hinner).bind fun _ _ he m' =>
        chain_viable (term_parses hinner) .sum maxDepth he.ofTerm m'⟩
  | some sg =>
      obtain ⟨t, htConsumes, ht⟩ := hanswer
      exact ⟨[t], htConsumes, (term_parses hinner).bind fun _ _ he m' =>
        chain_viable (term_parses hinner) .sum maxDepth (.signed ht he) m'⟩

theorem comparison_parses (hinner : inner.Parses (Derives .whole)) :
    (comparison inner).Parses (Derives .whole) := by
  refine ⟨comparison_sound hinner.sound, fun s => ?_⟩
  refine (simpleExpression_parses hinner).bind fun lhs ts hlhs m => ?_
  have hbegins : Begins (Spells (Derives .whole)) ([] ++ ts) :=
    .of_read hlhs.ofSimple
  refine .look hbegins (nextOperator_unmoved ..) fun next h => ?_
  cases next with
  | none => exact .pure hbegins _
  | some op =>
      obtain ⟨-, hrelational, t, hhead, hdenotes⟩ := nextOperator_eq_some h
      refine .step (consumes_advanceWithin _ hhead) fun m' => ?_
      refine (simpleExpression_parses hinner).bind fun rhs us hrhs m'' => ?_
      have hcomparison := Derives.comparison hrelational hdenotes hlhs hrhs
      exact .pure (.of_read (by simpa using hcomparison)) _

theorem expressionWithin_parses (levels : Nat) :
    (expressionWithin levels).Parses (Derives .whole) := by
  induction levels with
  | zero =>
      exact ⟨expressionWithin_sound 0, fun s => .refuseDepth (begins_expression .whole)⟩
  | succ levels ih =>
      exact ⟨expressionWithin_sound (levels + 1), fun s =>
        .descend fun m _ => (comparison_parses ih).viable m⟩

theorem rootExpression_parses : rootExpression.Parses (Derives .whole) :=
  ⟨rootExpression_sound, fun s => ((expressionWithin_parses maxDepth).viable s).releasing⟩

end Expressions

/-! ### Declarations -/

theorem listedName_viable {kind : FaultKind} (hname : ∀ name, Begins L (before ++ [.name name]))
    (s : Progress) : (listedName kind).Viable L before s :=
  .takeWithin exists_isIdentifier fun t ht _ => .pure (isIdentifier_iff.1 ht ▸ hname t.lexeme) _

/-- Names and the commas between them. -/
def ReadsNames (names : List String) (ts : List Terminal) : Prop :=
  names ≠ [] ∧ ts = (names.map Terminal.name).intersperse (.symbol ",")

theorem readsNames_append {names : List String} (h : ReadsNames names ts) (name : String) :
    ReadsNames (names ++ [name]) (ts ++ [.symbol ",", .name name]) := by
  obtain ⟨hne, rfl⟩ := h
  obtain ⟨first, others, rfl⟩ := List.exists_cons_of_ne_nil hne
  refine ⟨by simp, ?_⟩
  rw [List.cons_append, Declaration.intersperse_comma, Declaration.intersperse_comma]
  simp

theorem identifierList_parses : identifierList.Parses ReadsNames := by
  refine ⟨fun h => ⟨_, (identifierList_sound h).2, (identifierList_sound h).1, rfl⟩, fun s => ?_⟩
  have hfirst : ∀ name, ReadsNames [name] [.name name] := fun _ => ⟨by simp, rfl⟩
  refine .bind (listedName_viable (fun name => .of_read (hfirst name)) s) fun name m h => ?_
  have hothers : (many (isNext (·.isSymbol ",")) nextName).Viable (Spells ReadsNames)
      [.name name] m := by
    refine .manyNext (fun before names s t hnames hhead ht => ?_) (hfirst name)
    have hnext := readsNames_append hnames
    refine ⟨.step (consumes_advanceWithin _ hhead) fun m => listedName_viable (fun name => ?_) m,
      fun h => ⟨_, _, nextName_sound hhead ht h, hnext _⟩⟩
    rw [Token.isSymbol_iff.1 ht, List.append_assoc]
    exact .of_read (hnext name)
  exact ⟨_, listedName_sound h, hothers.answer _⟩

theorem typeName_unmoved (s : Progress) : (typeName s).2 = s := by
  obtain ⟨_ | ⟨t, ts⟩, last, depth⟩ := s
  · rfl
  · rw [typeName, run_bind_of_ok (run_current ..)]
    cases (if t.kind == .reservedType then TypeName.ofSpelling? t.lexeme else none) <;> rfl

/-- A declaration has names. -/
def ReadsDeclaration (d : Declaration) (ts : List Terminal) : Prop :=
  d.names ≠ [] ∧ ts = d.terminals

theorem declaration_parses : declaration.Parses ReadsDeclaration := by
  refine ⟨fun h => ⟨_, (declaration_sound h).2, (declaration_sound h).1, rfl⟩, fun s => ?_⟩
  refine identifierList_parses.bind fun names ts ⟨hne, hts⟩ m => ?_
  have hdeclared : ∀ type, Begins (Spells ReadsDeclaration)
      ([] ++ ts ++ [.symbol ":"] ++ [.type type]) := fun type =>
    .of_read (a := ⟨names, type⟩) ⟨hne, by simp [Declaration.terminals, hts]⟩
  refine .takeWithin (exists_isSymbol ":") fun colon hcolon m' => ?_
  rw [Token.isSymbol_iff.1 hcolon]
  refine .look (hdeclared .integer).of_append (typeName_unmoved m') fun type h => ?_
  obtain ⟨-, t, hhead, ht⟩ := typeName_eq_ok h
  refine .step (consumes_advanceWithin _ hhead) fun _ => .pure ?_ _
  rw [ht]
  exact hdeclared type

/-- Declarations, each of which has names. -/
def ReadsDeclarations (ds : List Declaration) (ts : List Terminal) : Prop :=
  Declaration.AllNamed ds ∧ ts = Declaration.terminalsAll ds

theorem readsDeclarations_append {ds : List Declaration} (h : ReadsDeclarations ds ts)
    {d : Declaration} (hd : d.names ≠ []) :
    ReadsDeclarations (ds ++ [d]) (ts ++ .word "var" :: (d.terminals ++ [.symbol ";"])) := by
  obtain ⟨hnamed, rfl⟩ := h
  exact ⟨List.forall_mem_append.2 ⟨hnamed, by simpa using hd⟩,
    by simp [Declaration.terminalsAll]⟩

theorem declarations_parses : declarations.Parses ReadsDeclarations := by
  refine ⟨fun h => ⟨_, (declarations_sound h).1, (declarations_sound h).2.1, rfl⟩, fun s => ?_⟩
  have hnone : ReadsDeclarations [] [] := ⟨by simp [Declaration.AllNamed], rfl⟩
  show (many _ declarationLine).Viable _ _ s
  refine .manyNext (fun before ds s t hds hhead ht => ⟨?_, fun h => ?_⟩) hnone
  · refine .step (consumes_advanceWithin _ hhead) fun m => ?_
    refine declaration_parses.bind fun d ts ⟨hne, hts⟩ m' => ?_
    refine .take (exists_isSymbol ";") fun semicolon hsemicolon m'' => .pure ?_ _
    rw [Token.isReservedWord_iff.1 ht, Token.isSymbol_iff.1 hsemicolon, hts]
    exact .of_read (by simpa using readsDeclarations_append hds hne)
  · obtain ⟨hconsumes, hne⟩ := declarationLine_sound hhead ht h
    exact ⟨_, _, hconsumes, readsDeclarations_append hds hne⟩

/-! ### Statements -/

/-- The statement is derived, on whatever levels. -/
def ReadsStatement (a : Statement) (ts : List Terminal) : Prop :=
  ∃ ns, a.Derives ts ns

theorem SoundStatement.reads {p : Parser Statement} (hp : SoundStatement p) {s m : Progress}
    {a : Statement} (h : p s = (.ok a, m)) : ∃ ts, s.Consumes m ts ∧ ReadsStatement a ts := by
  obtain ⟨ts, ns, hconsumes, hderives, -⟩ := hp h
  exact ⟨ts, hconsumes, ns, hderives⟩

theorem assignment_viable (s : Progress) : assignment.Viable (Spells ReadsStatement) [] s := by
  refine .takeWithin exists_isIdentifier fun target htarget m₁ => ?_
  refine .takeWithin ⟨⟨.assignmentOperator, ":=", 0, 0⟩, rfl⟩ fun t ht m₂ => ?_
  refine rootExpression_parses.bind fun value ts hvalue m₃ => ?_
  refine .take (exists_isSymbol ";") fun semicolon hsemicolon m₄ => .pure ?_ _
  rw [isIdentifier_iff.1 htarget, Token.isSymbol_iff.1 hsemicolon]
  have hassign : ReadsStatement (.assign target.lexeme value)
      (.name target.lexeme :: t.terminal :: (ts ++ [.symbol ";"])) :=
    ⟨_, .assign (eq_of_beq ht) hvalue⟩
  exact .of_read (by simpa using hassign)

/-- A statement can follow where nothing was consumed. -/
theorem begins_statement : Begins (Spells ReadsStatement) [] :=
  ⟨[.word "begin", .word "end"], .compound [], _, .compound .nil⟩

theorem conditional_viable {inner : Parser Statement} (hinner : inner.Parses ReadsStatement)
    (s : Progress) : (conditional inner).Viable (Spells ReadsStatement) [] s := by
  refine .takeWithin (exists_isReservedWord "if") fun ifToken hif m₁ => ?_
  refine rootExpression_parses.bind fun condition ts hcondition m₂ => ?_
  refine .takeWithin (exists_isReservedWord "then") fun thenToken hthen m₃ => ?_
  refine hinner.bind fun branch us ⟨ns, hbranch⟩ m₄ => ?_
  rw [Token.isReservedWord_iff.1 hif, Token.isReservedWord_iff.1 hthen]
  have hshort : Begins (Spells ReadsStatement)
      ([] ++ [.word "if"] ++ ts ++ [.word "then"] ++ us) :=
    .of_read (a := .ifThen condition branch) ⟨_, by simpa using .ifThen hcondition hbranch⟩
  refine .look hshort (isNext_unmoved ..) fun more h => ?_
  cases more with
  | false => exact .pure hshort _
  | true =>
      obtain ⟨elseToken, hhead, helse⟩ := exists_of_isNext h
      refine .step (consumes_advanceWithin _ hhead) fun m₅ => ?_
      refine hinner.bind fun alternative vs ⟨ms, halternative⟩ m₆ => .pure ?_ _
      rw [Token.isReservedWord_iff.1 helse]
      exact .of_read (a := .ifThenElse condition branch alternative)
        ⟨_, by simpa using .ifThenElse hcondition hbranch halternative⟩

theorem repetitive_viable {inner : Parser Statement} (hinner : inner.Parses ReadsStatement)
    (s : Progress) : (repetitive inner).Viable (Spells ReadsStatement) [] s := by
  refine .takeWithin (exists_isReservedWord "while") fun whileToken hwhile m₁ => ?_
  refine rootExpression_parses.bind fun condition ts hcondition m₂ => ?_
  refine .takeWithin (exists_isReservedWord "do") fun doToken hdo m₃ => ?_
  refine hinner.bind fun body us ⟨ns, hbody⟩ m₄ => .pure ?_ _
  rw [Token.isReservedWord_iff.1 hwhile, Token.isReservedWord_iff.1 hdo]
  exact .of_read (a := .whileDo condition body) ⟨_, by simpa using .whileDo hcondition hbody⟩

/-- Statements behind a `begin`. -/
def ReadsOpen (ss : List Statement) (ts : List Terminal) : Prop :=
  ∃ us ns, Statement.DerivesAll ss us ns ∧ ts = .word "begin" :: us

/-- Statements between `begin` and `end`. -/
def ReadsCompound (ss : List Statement) (ts : List Terminal) : Prop :=
  ∃ us ns, Statement.DerivesAll ss us ns ∧ ts = .word "begin" :: (us ++ [.word "end"])

theorem ReadsOpen.begins {ss : List Statement} (h : ReadsOpen ss ts) :
    Begins (Spells ReadsCompound) ts := by
  obtain ⟨us, ns, hderives, rfl⟩ := h
  exact ⟨[.word "end"], ss, us, ns, hderives, rfl⟩

theorem ReadsOpen.append {ss : List Statement} {a : Statement} (h : ReadsOpen ss ts)
    (ha : ReadsStatement a us) : ReadsOpen (ss ++ [a]) (ts ++ us) := by
  obtain ⟨vs, ns, hderives, rfl⟩ := h
  obtain ⟨ms, ha⟩ := ha
  have hone : Statement.DerivesAll [a] us ms := by simpa using Statement.DerivesAll.cons ha .nil
  exact ⟨vs ++ us, ns ++ ms, hderives.append hone, rfl⟩

theorem beforeEnd_unmoved (s : Progress) : (beforeEnd s).2 = s := by
  obtain ⟨_ | ⟨t, ts⟩, last, depth⟩ := s <;> rfl

theorem compound_parses {inner : Parser Statement} (hsound : SoundStatement inner)
    (hinner : inner.Parses ReadsStatement) : (compound inner).Parses ReadsCompound := by
  constructor
  · intro s m ss h
    obtain ⟨ts, ns, hconsumes, hderives, -⟩ := compound_sound hsound h
    exact ⟨_, hconsumes, ts, ns, hderives, rfl⟩
  · intro s
    refine .takeWithin (exists_isReservedWord "begin") fun beginToken hbegin m => ?_
    rw [Token.isReservedWord_iff.1 hbegin]
    have hopen : ReadsOpen [] ([] ++ [.word "begin"]) := ⟨[], [], .nil, rfl⟩
    have hgoes : ∀ ts, Spells ReadsOpen ts → Begins (Spells ReadsCompound) ts :=
      fun ts ⟨ss, hss⟩ => hss.begins
    have hmany : (many beforeEnd inner).Viable (Spells ReadsCompound)
        ([] ++ [.word "begin"]) m := by
      refine .many hgoes beforeEnd_unmoved (fun before s ⟨ss, hss⟩ _ => ⟨?_, fun h => ?_⟩)
        ⟨[], hopen⟩
      · exact (hinner.viable s).extend fun us ⟨a, ha⟩ => (hss.append ha).begins
      · obtain ⟨us, hconsumes, ha⟩ := hinner.sound h
        exact ⟨us, hconsumes, _, hss.append ha⟩
    refine .bind hmany fun ss m' h => ?_
    obtain ⟨ts, ns, t, hconsumes, hderives, -, hhead, hend⟩ :=
      statements_sound hsound _ (Nat.le_refl _) h
    refine ⟨ts, hconsumes, .step (consumes_advance hhead) fun m'' => .pure ?_ _⟩
    rw [Token.isReservedWord_iff.1 hend]
    have hcompound : ReadsCompound ss (.word "begin" :: (ts ++ [.word "end"])) :=
      ⟨ts, ns, hderives, rfl⟩
    exact .of_read hcompound

theorem statementBody_viable {inner : Parser Statement} (hsound : SoundStatement inner)
    (hinner : inner.Parses ReadsStatement) (s : Progress) :
    (statementBody inner).Viable (Spells ReadsStatement) [] s := by
  refine .look begins_statement (current_unmoved ..) fun t h => ?_
  cases t.kind with
  | identifier => exact assignment_viable s
  | reservedWord =>
      simp only
      split
      · refine declarations_parses.bind fun ds ts ⟨hnamed, hts⟩ m => .pure ?_ _
        subst hts
        -- a statement has declarations only if there is one
        by_cases hds : ds = []
        · subst hds
          exact begins_statement
        · exact .of_read ⟨_, .declare hds hnamed⟩
      · refine (compound_parses hsound hinner).bind fun ss ts ⟨us, ns, hderives, hts⟩ m => ?_
        subst hts
        exact .pure (.of_read ⟨_, .compound hderives⟩) _
      · exact conditional_viable hinner s
      · exact repetitive_viable hinner s
      · exact .refuse begins_statement _
  | _ => exact .refuse begins_statement _

theorem statementWithin_parses (levels : Nat) :
    (statementWithin levels).Parses ReadsStatement := by
  induction levels with
  | zero =>
      exact ⟨SoundStatement.reads (statementWithin_sound 0), fun s => .refuseDepth begins_statement⟩
  | succ levels ih =>
      exact ⟨SoundStatement.reads (statementWithin_sound (levels + 1)),
        fun s => .nested fun m => statementBody_viable (statementWithin_sound levels) ih m⟩

/-! ### Programs -/

/-- Declarations and a compound statement. -/
def ReadsBlock (b : Block) (ts : List Terminal) : Prop :=
  ∃ us vs, ReadsDeclarations b.declarations us ∧ ReadsCompound b.body vs ∧ ts = us ++ vs

theorem block_parses : block.Parses ReadsBlock := by
  constructor
  · intro s m b h
    obtain ⟨ts, ns, hconsumes, hnamed, hderives, -⟩ := block_sound h
    exact ⟨_, hconsumes, _, _, ⟨hnamed, rfl⟩, ⟨ts, ns, hderives, rfl⟩, rfl⟩
  · intro s
    refine declarations_parses.bind fun ds us hds m => ?_
    refine (compound_parses (statementWithin_sound maxDepth)
      (statementWithin_parses maxDepth)).bind fun ss vs hss m' => ?_
    have hblock : ReadsBlock ⟨ds, ss⟩ (us ++ vs) := ⟨us, vs, hds, hss, rfl⟩
    exact .pure (.of_read hblock) _

/-- The program is derived, on whatever levels. -/
def ReadsProgram (p : Program) (ts : List Terminal) : Prop :=
  ∃ ns, p.Derives ts ns

theorem program_parses : program.Parses ReadsProgram := by
  constructor
  · intro s m p h
    obtain ⟨-, ts, ns, hconsumes, hderives, -⟩ := program_consumes h
    exact ⟨ts, hconsumes, ns, hderives⟩
  · intro s
    refine .takeWithin (exists_isReservedWord "program") fun programToken hprogram m₁ => ?_
    refine .takeWithin exists_isIdentifier fun name hname m₂ => ?_
    refine .takeWithin (exists_isSymbol ";") fun semicolon hsemicolon m₃ => ?_
    refine block_parses.bind fun b ts ⟨us, vs, ⟨hnamed, hus⟩, ⟨ws, ns, hderives, hvs⟩, hts⟩ m₄ => ?_
    refine .take (exists_isSymbol ".") fun dot hdot m₅ => ?_
    rw [Token.isReservedWord_iff.1 hprogram, isIdentifier_iff.1 hname,
      Token.isSymbol_iff.1 hsemicolon, Token.isSymbol_iff.1 hdot]
    subst hts hus hvs
    have hprogram : ReadsProgram ⟨name.lexeme, b⟩ ([] ++ [.word "program"] ++
        [.name name.lexeme] ++ [.symbol ";"] ++ (Declaration.terminalsAll b.declarations ++
          (.word "begin" :: (ws ++ [.word "end"]))) ++ [.symbol "."]) :=
      ⟨ns, hnamed, ws, hderives, by simp⟩
    refine .look (.of_read hprogram) rfl fun following _ => ?_
    cases following with
    | some t => exact .refuse (.of_read hprogram) _
    | none => exact .pure (.of_read hprogram) _

end Parser

end MiniPascal
