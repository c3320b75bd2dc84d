import MiniPascal.Proofs.ParserRuns

/-!
# Parsing declarations and deriving them

The terminals of a declaration are determined by it, so here a success consumes just
those terminals (`declarations_sound`), and on them the parser answers with that
declaration (`run_declarations`).  Names and declarations are repeated in the same
way, for as long as the next token has a certain spelling.
-/

namespace MiniPascal

/-- Names after the first one come each behind a comma. -/
theorem Declaration.intersperse_comma (name : String) (names : List String) :
    ((name :: names).map Terminal.name).intersperse (.symbol ",") =
      .name name :: names.flatMap fun x => [.symbol ",", .name x] := by
  induction names generalizing name with
  | nil => rfl
  | cons y ys ih =>
      rw [List.map_cons, List.map_cons, List.intersperse_cons_cons, ← List.map_cons, ih]
      rfl

namespace Parser

variable {α : Type}

/-! ### Repetition while a certain token follows -/

/-- Every item that is parsed consumes its own terminals, and no other item follows. -/
theorem manyUpTo_sound {accepts : Token → Bool} (item : Parser α) {spell : α → List Terminal}
    {P : α → Prop} (hne : ∀ a, spell a ≠ [])
    (hitem : ∀ {s m : Progress} {a : α} {t : Token}, s.rest.head? = some t → accepts t = true →
      item s = (.ok a, m) → s.Consumes m (spell a) ∧ P a)
    (n : Nat) {s m : Progress} {as : List α} (hn : s.rest.length ≤ n)
    (h : manyUpTo (isNext accepts) item n s = (.ok as, m)) :
    s.Consumes m (as.flatMap spell) ∧ (∀ a ∈ as, P a) ∧
      m.rest.head?.any accepts = false := by
  -- the counter bounds the tokens that are left, and every item consumes one at least
  induction n generalizing s as with
  | zero =>
      have hrest : s.rest = [] := List.length_eq_zero_iff.1 (Nat.le_zero.1 hn)
      rw [manyUpTo, run_bind_of_ok (run_isNext accepts s)] at h
      obtain ⟨rfl, rfl⟩ := pure_eq_ok h
      exact ⟨.refl _, by simp, by simp [hrest]⟩
  | succ n ih =>
      rw [manyUpTo, run_bind_of_ok (run_isNext accepts s)] at h
      split at h
      · next hnext =>
          obtain ⟨t, hhead, haccepts⟩ := (Option.any_eq_true ..).1 hnext
          obtain ⟨a, m₁, hrun, htail⟩ := bind_eq_ok h
          obtain ⟨as', m₂, hmany, hpure⟩ := bind_eq_ok htail
          obtain ⟨rfl, rfl⟩ := pure_eq_ok hpure
          obtain ⟨hconsumes, hgood⟩ := hitem hhead haccepts hrun
          have hshorter := hconsumes.length_lt (hne a)
          obtain ⟨hconsumes', hgood', hend⟩ := ih (by omega) hmany
          exact ⟨hconsumes.trans hconsumes', List.forall_mem_cons.2 ⟨hgood, hgood'⟩, hend⟩
      · next hnext =>
          obtain ⟨rfl, rfl⟩ := pure_eq_ok h
          exact ⟨.refl _, by simp, by simpa using hnext⟩

/-- Items that are each parsed from their own terminals are parsed one after the other. -/
theorem run_manyUpTo {accepts : Token → Bool} (item : Parser α) {spell : α → List Terminal}
    {depth : Nat} {as : List α}
    (hitem : ∀ a ∈ as, ∀ (ts rest : List Token) (last : Option Token),
      ts.map Token.terminal = spell a → rest ≠ [] → ts.head?.any accepts = true ∧
        ∃ last', item ⟨ts ++ rest, last, depth⟩ = (.ok a, ⟨rest, last', depth⟩))
    {ts rest : List Token} (hts : ts.map Token.terminal = as.flatMap spell) (hrest : rest ≠ [])
    (hend : rest.head?.any accepts = false) (n : Nat) (hn : (ts ++ rest).length ≤ n)
    (last : Option Token) :
    ∃ last', manyUpTo (isNext accepts) item n ⟨ts ++ rest, last, depth⟩ =
      (.ok as, ⟨rest, last', depth⟩) := by
  induction as generalizing ts n last with
  | nil =>
      obtain rfl : ts = [] := by simpa using hts
      cases n with
      | zero => exact absurd (List.length_eq_zero_iff.1 (Nat.le_zero.1 hn)) hrest
      | succ n =>
          refine ⟨last, ?_⟩
          rw [manyUpTo, run_bind_of_ok (run_isNext ..), if_neg (by simp [hend])]
          rfl
  | cons a as ih =>
      obtain ⟨us, vs, rfl, hus, hvs⟩ := List.map_eq_append_iff.1 hts
      obtain ⟨hhead, last₁, hrun⟩ :=
        hitem a (by simp) us (vs ++ rest) last hus (by simp [hrest])
      -- an accepted token comes first, so the item is not empty and the counter is not used up
      obtain ⟨t, us, rfl⟩ : ∃ t us', us = t :: us' := by
        cases us with
        | nil => simp at hhead
        | cons t us => exact ⟨t, us, rfl⟩
      cases n with
      | zero => simp at hn
      | succ n =>
          have hshorter : (vs ++ rest).length ≤ n := by
            simp only [List.length_append, List.length_cons] at hn ⊢
            omega
          obtain ⟨last₂, hmany⟩ :=
            ih (fun b hb => hitem b (by simp [hb])) hvs n hshorter last₁
          refine ⟨last₂, ?_⟩
          rw [manyUpTo, run_bind_of_ok (run_isNext ..), if_pos (by simpa using hhead),
            List.append_assoc, run_bind_of_ok hrun, run_bind_of_ok hmany]
          rfl

/-! ### Lists of names -/

theorem listedName_sound {kind : FaultKind} {s m : Progress} {name : String}
    (h : listedName kind s = (.ok name, m)) : s.Consumes m [.name name] := by
  obtain ⟨t, m', haccepts, hconsumes, hpure⟩ := takeWithin_eq_ok h
  obtain ⟨rfl, rfl⟩ := pure_eq_ok hpure
  rwa [isIdentifier_iff.1 haccepts] at hconsumes

theorem run_listedName (kind : FaultKind) {t : Token} {name : String}
    (ht : t.terminal = .name name) {ts : List Token} (hts : ts ≠ []) (last : Option Token)
    (depth : Nat) :
    listedName kind ⟨t :: ts, last, depth⟩ = (.ok name, ⟨ts, some t, depth⟩) := by
  have hlexeme : t.lexeme = name := congrArg Terminal.lexeme ht
  rw [listedName, run_bind_of_ok (run_expect (isIdentifier_iff.2 (by rw [ht, hlexeme])) ..),
    run_bind_of_ok (run_advanceWithin _ _ hts ..), hlexeme, run_pure]

/-- The parser of one more name of a list. -/
def nextName : Parser String := do
  advanceWithin .expectedIdentifierAfterComma
  listedName .expectedIdentifierAfterComma

theorem nextName_sound {s m : Progress} {name : String} {t : Token}
    (hhead : s.rest.head? = some t) (ht : t.isSymbol "," = true)
    (h : nextName s = (.ok name, m)) : s.Consumes m [.symbol ",", .name name] := by
  obtain ⟨_, m', hadvance, hname⟩ := bind_eq_ok h
  have hcomma := advanceWithin_eq_ok hhead hadvance
  rw [Token.isSymbol_iff.1 ht] at hcomma
  exact hcomma.cons (listedName_sound hname)

theorem run_nextName {name : String} {ts rest : List Token}
    (hts : ts.map Token.terminal = [.symbol ",", .name name]) (hrest : rest ≠ [])
    (last : Option Token) (depth : Nat) :
    ts.head?.any (·.isSymbol ",") = true ∧
      ∃ last', nextName ⟨ts ++ rest, last, depth⟩ = (.ok name, ⟨rest, last', depth⟩) := by
  obtain ⟨comma, us, rfl, hcomma, hus⟩ := List.map_eq_cons_iff.1 hts
  obtain ⟨t, rfl, ht⟩ := List.map_eq_singleton_iff.1 hus
  refine ⟨by simpa using Token.isSymbol_iff.2 hcomma, some t, ?_⟩
  rw [nextName, List.cons_append, run_bind_of_ok (run_advanceWithin _ _ (by simp) ..)]
  exact run_listedName _ ht hrest ..

theorem identifierList_sound {s m : Progress} {names : List String}
    (h : identifierList s = (.ok names, m)) :
    names ≠ [] ∧ s.Consumes m ((names.map Terminal.name).intersperse (.symbol ",")) := by
  obtain ⟨first, m₁, hfirst, hrun⟩ := bind_eq_ok h
  obtain ⟨others, m₂, hothers, hpure⟩ := bind_eq_ok hrun
  obtain ⟨rfl, rfl⟩ := pure_eq_ok hpure
  obtain ⟨hconsumes, -, -⟩ := manyUpTo_sound nextName (P := fun _ => True) (by simp)
    (fun hhead ht hrun => ⟨nextName_sound hhead ht hrun, trivial⟩) _ (Nat.le_refl _) hothers
  refine ⟨by simp, ?_⟩
  rw [Declaration.intersperse_comma]
  exact (listedName_sound hfirst).cons hconsumes

theorem run_identifierList {names : List String} (hnames : names ≠ []) {ts rest : List Token}
    (hts : ts.map Token.terminal = (names.map Terminal.name).intersperse (.symbol ","))
    (hrest : rest ≠ []) (hend : rest.head?.any (·.isSymbol ",") = false) (last : Option Token)
    (depth : Nat) :
    ∃ last', identifierList ⟨ts ++ rest, last, depth⟩ = (.ok names, ⟨rest, last', depth⟩) := by
  obtain ⟨name, names, rfl⟩ := List.exists_cons_of_ne_nil hnames
  rw [Declaration.intersperse_comma] at hts
  obtain ⟨t, us, rfl, ht, hus⟩ := List.map_eq_cons_iff.1 hts
  obtain ⟨last', hmany⟩ := run_manyUpTo nextName
    (fun _ _ _ _ last hts hrest => run_nextName hts hrest last depth) hus hrest hend _
    (Nat.le_refl _) (some t)
  have hfirst := run_listedName .expectedIdentifier ht
    (show us ++ rest ≠ [] by simp [hrest]) last depth
  refine ⟨last', ?_⟩
  rw [identifierList, List.cons_append, run_bind_of_ok hfirst]
  exact run_bind_of_ok hmany

/-! ### Declarations -/

theorem typeName_eq_ok {s m : Progress} {type : TypeName} (h : typeName s = (.ok type, m)) :
    m = s ∧ ∃ t, s.rest.head? = some t ∧ t.terminal = .type type := by
  obtain ⟨t, m', hcurrent, hrun⟩ := bind_eq_ok h
  obtain ⟨rfl, hhead⟩ := current_eq_ok hcurrent
  cases htype : if t.kind == .reservedType then TypeName.ofSpelling? t.lexeme else none with
  | none =>
      simp only [htype] at hrun
      exact absurd hrun refuse_ne_ok
  | some type' =>
      simp only [htype] at hrun
      obtain ⟨rfl, rfl⟩ := pure_eq_ok hrun
      refine ⟨rfl, t, hhead, ?_⟩
      split at htype
      · next hkind =>
          obtain ⟨category, spelling, line, column⟩ := t
          have hspelling : spelling = type.spelling := TypeName.ofSpelling?_eq_some_iff.1 htype
          subst hspelling
          cases category <;> simp_all [Token.kind, Category.kind, Token.terminal, Terminal.type]
      · simp at htype

theorem run_typeName {t : Token} {type : TypeName} (ht : t.terminal = .type type)
    (ts : List Token) (last : Option Token) (depth : Nat) :
    typeName ⟨t :: ts, last, depth⟩ = (.ok type, ⟨t :: ts, last, depth⟩) := by
  have hkind : t.kind = .reservedType := by
    show t.terminal.category.kind = _
    rw [ht]
    rfl
  have hlexeme : t.lexeme = type.spelling := congrArg Terminal.lexeme ht
  have hsome : TypeName.ofSpelling? t.lexeme = some type :=
    TypeName.ofSpelling?_eq_some_iff.2 hlexeme
  rw [typeName, run_bind_of_ok (run_current ..)]
  simp [hkind, hsome]

theorem declaration_sound {s m : Progress} {d : Declaration}
    (h : declaration s = (.ok d, m)) : d.names ≠ [] ∧ s.Consumes m d.terminals := by
  obtain ⟨names, m₁, hnames, hrun⟩ := bind_eq_ok h
  obtain ⟨hne, hconsumes⟩ := identifierList_sound hnames
  obtain ⟨colon, m₂, hcolon, hcolonConsumes, hrun₂⟩ := takeWithin_eq_ok hrun
  obtain ⟨type, m₃, htype, hrun₃⟩ := bind_eq_ok hrun₂
  obtain ⟨rfl, t, hhead, ht⟩ := typeName_eq_ok htype
  obtain ⟨_, m₄, hadvance, hpure⟩ := bind_eq_ok hrun₃
  obtain ⟨rfl, rfl⟩ := pure_eq_ok hpure
  have htConsumes := advanceWithin_eq_ok hhead hadvance
  rw [ht] at htConsumes
  rw [Token.isSymbol_iff.1 hcolon] at hcolonConsumes
  exact ⟨hne, hconsumes.trans (hcolonConsumes.cons htConsumes)⟩

theorem run_declaration {d : Declaration} (hnames : d.names ≠ []) {ts rest : List Token}
    (hts : ts.map Token.terminal = d.terminals) (hrest : rest ≠ []) (last : Option Token)
    (depth : Nat) :
    ∃ last', declaration ⟨ts ++ rest, last, depth⟩ = (.ok d, ⟨rest, last', depth⟩) := by
  obtain ⟨us, vs, rfl, hus, hvs⟩ := List.map_eq_append_iff.1 hts
  obtain ⟨colon, ws, rfl, hcolon, hws⟩ := List.map_eq_cons_iff.1 hvs
  obtain ⟨t, rfl, ht⟩ := List.map_eq_singleton_iff.1 hws
  -- the colon ends the list of names
  have hend : (colon :: [t] ++ rest).head?.any (·.isSymbol ",") = false := by
    have hcomma : ¬colon.isSymbol "," = true := by
      rw [Token.isSymbol_iff, hcolon]
      decide
    simpa using hcomma
  obtain ⟨last', hlist⟩ := run_identifierList hnames hus (by simp) hend last depth
  refine ⟨some t, ?_⟩
  rw [declaration, List.append_assoc, run_bind_of_ok hlist, List.cons_append,
    run_bind_of_ok (run_expect (Token.isSymbol_iff.2 hcolon) ..),
    run_bind_of_ok (run_advanceWithin _ _ (by simp) ..), List.singleton_append,
    run_bind_of_ok (run_typeName ht ..), run_bind_of_ok (run_advanceWithin _ _ hrest ..)]
  rfl

/-- The parser of one declaration of a run. -/
def declarationLine : Parser Declaration := do
  advanceWithin .expectedIdentifierAfterVar
  let d ← declaration
  let _ ← expect (·.isSymbol ";") .expectedSemicolon
  advance
  pure d

theorem declarationLine_sound {s m : Progress} {d : Declaration} {t : Token}
    (hhead : s.rest.head? = some t) (ht : t.isReservedWord "var" = true)
    (h : declarationLine s = (.ok d, m)) :
    s.Consumes m (.word "var" :: (d.terminals ++ [.symbol ";"])) ∧ d.names ≠ [] := by
  obtain ⟨_, m₁, hadvance, hrun₁⟩ := bind_eq_ok h
  obtain ⟨d', m₂, hdeclaration, hrun₂⟩ := bind_eq_ok hrun₁
  obtain ⟨semicolon, m₃, hsemicolon, hend, hpure⟩ := take_eq_ok hrun₂
  obtain ⟨rfl, rfl⟩ := pure_eq_ok hpure
  obtain ⟨hne, hconsumes⟩ := declaration_sound hdeclaration
  have hvar := advanceWithin_eq_ok hhead hadvance
  rw [Token.isReservedWord_iff.1 ht] at hvar
  rw [Token.isSymbol_iff.1 hsemicolon] at hend
  exact ⟨hvar.cons (hconsumes.trans hend), hne⟩

theorem run_declarationLine {d : Declaration} (hnames : d.names ≠ []) {ts rest : List Token}
    (hts : ts.map Token.terminal = .word "var" :: (d.terminals ++ [.symbol ";"]))
    (last : Option Token) (depth : Nat) :
    ts.head?.any (·.isReservedWord "var") = true ∧
      ∃ last', declarationLine ⟨ts ++ rest, last, depth⟩ = (.ok d, ⟨rest, last', depth⟩) := by
  obtain ⟨t, us, rfl, ht, hus⟩ := List.map_eq_cons_iff.1 hts
  obtain ⟨vs, ws, rfl, hvs, hws⟩ := List.map_eq_append_iff.1 hus
  obtain ⟨semicolon, rfl, hsemicolon⟩ := List.map_eq_singleton_iff.1 hws
  obtain ⟨last', hrun⟩ :=
    run_declaration hnames hvs (show [semicolon] ++ rest ≠ [] by simp) (some t) depth
  refine ⟨by simpa using Token.isReservedWord_iff.2 ht, some semicolon, ?_⟩
  have hne : vs ++ ([semicolon] ++ rest) ≠ [] := by simp
  rw [List.cons_append, List.append_assoc, declarationLine,
    run_bind_of_ok (run_advanceWithin _ _ hne ..), run_bind_of_ok hrun,
    List.singleton_append, run_bind_of_ok (run_expect (Token.isSymbol_iff.2 hsemicolon) ..),
    run_bind_of_ok (run_advance ..)]
  rfl

/-- Declarations take every `var` that follows. -/
theorem declarations_sound {s m : Progress} {ds : List Declaration}
    (h : declarations s = (.ok ds, m)) :
    s.Consumes m (Declaration.terminalsAll ds) ∧ Declaration.AllNamed ds ∧
      m.rest.head?.any (·.isReservedWord "var") = false :=
  manyUpTo_sound declarationLine (by simp) declarationLine_sound _ (Nat.le_refl _) h

/-- Declarations are read from their terminals if no other one follows. -/
theorem run_declarations {ds : List Declaration} (hds : Declaration.AllNamed ds)
    {ts rest : List Token} (hts : ts.map Token.terminal = Declaration.terminalsAll ds)
    (hrest : rest ≠ []) (hend : rest.head?.any (·.isReservedWord "var") = false)
    (last : Option Token) (depth : Nat) :
    ∃ last', declarations ⟨ts ++ rest, last, depth⟩ = (.ok ds, ⟨rest, last', depth⟩) :=
  run_manyUpTo declarationLine
    (fun d hd _ _ last hts _ => run_declarationLine (hds d hd) hts last depth) hts hrest hend _
    (Nat.le_refl _) last

end Parser

end MiniPascal
