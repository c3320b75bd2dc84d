import MiniPascal.Proofs.DeclarationParsing
import MiniPascal.Proofs.ExpressionParsing

/-!
# Parsing statements and deriving them

A statement that is parsed is derived by what it consumes, it is unambiguous, and the
next token does not belong to it (`statementWithin_sound`).  Conversely, tokens that
derive an unambiguous statement are read as that statement if the levels suffice and
the next token does not belong to it (`readable_of_derives`).
-/

namespace MiniPascal

/-- The kind and the spelling of a token that is a reserved word. -/
theorem Token.word_fields {t : Token} {lexeme : String} (ht : t.terminal = .word lexeme) :
    t.kind = .reservedWord ∧ t.lexeme = lexeme := by
  refine ⟨?_, congrArg Terminal.lexeme ht⟩
  rw [Token.kind_eq, ht]
  rfl

namespace Statement

/-! ### How statements begin -/

theorem Derives.one_mem {s : Statement} {ts : List Terminal} {ns : List Nat}
    (h : s.Derives ts ns) : 1 ∈ ns := by
  cases h <;> simp

/-- No statement begins with `else` or `end`, and only declarations begin with `var`. -/
theorem Derives.starts {s : Statement} {ts : List Terminal} {ns : List Nat}
    (h : s.Derives ts ns) :
    ∃ t us, ts = t :: us ∧ t ≠ .word "else" ∧ t ≠ .word "end" ∧
      (t = .word "var" ↔ startsWithDeclarations [s] = true) := by
  cases h with
  | declare hne hnamed =>
      obtain ⟨d, ds, rfl⟩ := List.exists_cons_of_ne_nil hne
      exact ⟨_, _, rfl, by decide, by decide, by simp [startsWithDeclarations]⟩
  | assign ht hvalue =>
      refine ⟨_, _, rfl, ?_, ?_, ?_⟩ <;>
        simp [Terminal.name, Terminal.word, startsWithDeclarations]
  | compound _ | ifThen _ _ | ifThenElse _ _ _ | whileDo _ _ =>
      exact ⟨_, _, rfl, by decide, by decide, by simp [Terminal.word, startsWithDeclarations]⟩

theorem startsWithDeclarations_cons (s : Statement) (ss : List Statement) :
    startsWithDeclarations (s :: ss) = startsWithDeclarations [s] := by
  cases s <;> rfl

theorem Derives.ne_nil {s : Statement} {ts : List Terminal} {ns : List Nat}
    (h : s.Derives ts ns) : ts ≠ [] := by
  obtain ⟨t, us, rfl, -⟩ := h.starts
  exact List.cons_ne_nil t us

/-- Statements in front of others. -/
theorem DerivesAll.append {ss ss' : List Statement} {ts us : List Terminal} {ns ms : List Nat}
    (h : DerivesAll ss ts ns) (h' : DerivesAll ss' us ms) :
    DerivesAll (ss ++ ss') (ts ++ us) (ns ++ ms) := by
  cases h with
  | nil => exact h'
  | cons hs hss =>
      rw [List.append_assoc, List.append_assoc]
      exact .cons hs (hss.append h')

/-- The token to come does not belong to the statement. -/
structure EndsBefore (s : Statement) (rest : List Token) : Prop where
  noElse : s.endsOpen = true → rest.head?.any (·.isReservedWord "else") = false
  noVar : s.endsInDeclarations = true → rest.head?.any (·.isReservedWord "var") = false

/-- Nothing can belong to a statement that ends with a word or a symbol of its own. -/
theorem EndsBefore.of_closed {s : Statement} (hopen : s.endsOpen = false)
    (hdeclarations : s.endsInDeclarations = false) (rest : List Token) : s.EndsBefore rest := by
  constructor
  · intro h
    simp [hopen] at h
  · intro h
    simp [hdeclarations] at h

theorem EndsBefore.of_head {s : Statement} {t : Token} {rest : List Token}
    (hElse : t.terminal ≠ .word "else")
    (hVar : s.endsInDeclarations = true → t.terminal ≠ .word "var") :
    s.EndsBefore (t :: rest) := by
  constructor
  · intro _
    simpa [← Bool.not_eq_true, Token.isReservedWord_iff] using hElse
  · intro hdeclarations
    simpa [← Bool.not_eq_true, Token.isReservedWord_iff] using hVar hdeclarations

end Statement

namespace Parser

open Statement (Derives DerivesAll EndsBefore areUnambiguous startsWithDeclarations)

/-! ### What a success consumes -/

/-- What the parser consumes derives its answer, which is unambiguous and ends there. -/
def SoundStatement (p : Parser Statement) : Prop :=
  ∀ {s m : Progress} {a : Statement}, p s = (.ok a, m) →
    ∃ ts ns, s.Consumes m ts ∧ a.Derives ts ns ∧ a.isUnambiguous = true ∧ a.EndsBefore m.rest

theorem assignment_sound : SoundStatement assignment := by
  intro s m a h
  obtain ⟨target, m₁, htarget, htargetConsumes, hrun₁⟩ := takeWithin_eq_ok h
  obtain ⟨t, m₂, ht, htConsumes, hrun₂⟩ := takeWithin_eq_ok hrun₁
  obtain ⟨value, m₃, hvalue, hrun₃⟩ := bind_eq_ok hrun₂
  obtain ⟨semicolon, m₄, hsemicolon, hend, hpure⟩ := take_eq_ok hrun₃
  obtain ⟨rfl, rfl⟩ := pure_eq_ok hpure
  obtain ⟨ts, htsConsumes, hts⟩ := rootExpression_sound hvalue
  rw [isIdentifier_iff.1 htarget] at htargetConsumes
  rw [Token.isSymbol_iff.1 hsemicolon] at hend
  exact ⟨_, _, htargetConsumes.cons (htConsumes.cons (htsConsumes.trans hend)),
    .assign (eq_of_beq ht) hts, rfl, .of_closed rfl rfl m.rest⟩

/-- A parser that starts with a header goes on behind it. -/
theorem header_eq_ok {α : Type} {opening closing : String}
    {before within behind after : FaultKind} {f : Expression → Parser α} {s m : Progress} {a : α}
    (h : (do
      let _ ← expect (·.isReservedWord opening) before
      advanceWithin within
      let condition ← rootExpression
      let _ ← expect (·.isReservedWord closing) behind
      advanceWithin after
      f condition : Parser α) s = (.ok a, m)) :
    ∃ condition m' ts, condition.Derives .whole ts ∧ f condition m' = (.ok a, m) ∧
      ∀ {n : Progress} {us : List Terminal}, m'.Consumes n us →
        s.Consumes n (.word opening :: (ts ++ .word closing :: us)) := by
  obtain ⟨first, m₁, hfirst, hfirstConsumes, hrun₁⟩ := takeWithin_eq_ok h
  obtain ⟨condition, m₂, hcondition, hrun₂⟩ := bind_eq_ok hrun₁
  obtain ⟨last, m₃, hlast, hlastConsumes, hrun₃⟩ := takeWithin_eq_ok hrun₂
  obtain ⟨ts, htsConsumes, hts⟩ := rootExpression_sound hcondition
  rw [Token.isReservedWord_iff.1 hfirst] at hfirstConsumes
  rw [Token.isReservedWord_iff.1 hlast] at hlastConsumes
  exact ⟨condition, m₃, ts, hts, hrun₃,
    fun husConsumes => hfirstConsumes.cons (htsConsumes.trans (hlastConsumes.cons husConsumes))⟩

theorem conditional_sound {inner : Parser Statement} (hinner : SoundStatement inner) :
    SoundStatement (conditional inner) := by
  intro s m a h
  obtain ⟨condition, m₁, ts, hts, hrun₁, hheader⟩ := header_eq_ok h
  obtain ⟨branch, m₂, hbranch, hrun₂⟩ := bind_eq_ok hrun₁
  obtain ⟨us, ns, husConsumes, hus, hunambiguous, hends⟩ := hinner hbranch
  have hconsumes := hheader husConsumes
  rw [run_bind_of_ok (run_isNext ..)] at hrun₂
  split at hrun₂
  · next hnext =>
      obtain ⟨elseToken, hhead, helse⟩ := (Option.any_eq_true ..).1 hnext
      obtain ⟨_, m₃, hadvance, hrun₃⟩ := bind_eq_ok hrun₂
      obtain ⟨alternative, m₄, halternative, hpure⟩ := bind_eq_ok hrun₃
      obtain ⟨rfl, rfl⟩ := pure_eq_ok hpure
      obtain ⟨vs, ms, hvsConsumes, hvs, hunambiguous', hends'⟩ := hinner halternative
      have helseConsumes := advanceWithin_eq_ok hhead hadvance
      rw [Token.isReservedWord_iff.1 helse] at helseConsumes
      -- an open branch would have taken the alternative itself
      have hclosed : branch.endsOpen = false := by
        cases hopen : branch.endsOpen with
        | false => rfl
        | true => exact absurd hnext (by simp [hends.noElse hopen])
      refine ⟨_, _, ?_, .ifThenElse hts hus hvs, ?_, hends'.noElse, hends'.noVar⟩
      · simpa using hconsumes.trans (helseConsumes.cons hvsConsumes)
      · simp [Statement.isUnambiguous, hclosed, hunambiguous, hunambiguous']
  · next hnext =>
      obtain ⟨rfl, rfl⟩ := pure_eq_ok hrun₂
      exact ⟨_, _, hconsumes, .ifThen hts hus, hunambiguous, fun _ => by simpa using hnext,
        hends.noVar⟩

theorem repetitive_sound {inner : Parser Statement} (hinner : SoundStatement inner) :
    SoundStatement (repetitive inner) := by
  intro s m a h
  obtain ⟨condition, m₁, ts, hts, hrun₁, hheader⟩ := header_eq_ok h
  obtain ⟨body, m₂, hbody, hpure⟩ := bind_eq_ok hrun₁
  obtain ⟨rfl, rfl⟩ := pure_eq_ok hpure
  obtain ⟨us, ns, husConsumes, hus, hunambiguous, hends⟩ := hinner hbody
  exact ⟨_, _, hheader husConsumes, .whileDo hts hus, hunambiguous, hends.noElse, hends.noVar⟩

/-- There is another statement in a compound one as long as its `end` does not follow. -/
def beforeEnd : Parser Bool := do
  return !(← current .expectedEnd).isReservedWord "end"

theorem beforeEnd_eq_ok {s m : Progress} {more : Bool} (h : beforeEnd s = (.ok more, m)) :
    m = s ∧ ∃ t, s.rest.head? = some t ∧ more = !t.isReservedWord "end" := by
  obtain ⟨t, m', hcurrent, hpure⟩ := bind_eq_ok h
  obtain ⟨rfl, hhead⟩ := current_eq_ok hcurrent
  obtain ⟨rfl, rfl⟩ := pure_eq_ok hpure
  exact ⟨rfl, t, hhead, rfl⟩

theorem run_beforeEnd (t : Token) (ts : List Token) (last : Option Token) (depth : Nat) :
    beforeEnd ⟨t :: ts, last, depth⟩ =
      (.ok (!t.isReservedWord "end"), ⟨t :: ts, last, depth⟩) := rfl

/-- The next one of some statements begins where they do. -/
theorem startsWithDeclarations_of_consumes {s m : Progress} {ss : List Statement}
    {ts : List Terminal} {ns : List Nat} (hconsumes : s.Consumes m ts)
    (hss : DerivesAll ss ts ns) (hstarts : startsWithDeclarations ss = true) :
    s.rest.head?.any (·.isReservedWord "var") = true := by
  cases hss with
  | nil => simp [startsWithDeclarations] at hstarts
  | cons hs htail =>
      obtain ⟨t, us, rfl, -, -, hvar⟩ := hs.starts
      obtain ⟨used, hrest, hused⟩ := hconsumes
      obtain ⟨u, us', rfl, hu, -⟩ := List.map_eq_cons_iff.1 hused
      have ht : t = .word "var" := by
        rw [hvar, ← Statement.startsWithDeclarations_cons]
        exact hstarts
      rw [hrest]
      simpa using Token.isReservedWord_iff.2 (hu.trans ht)

theorem statements_sound {inner : Parser Statement} (hinner : SoundStatement inner) (n : Nat)
    {s m : Progress} {ss : List Statement} (hn : s.rest.length ≤ n)
    (h : manyUpTo beforeEnd inner n s = (.ok ss, m)) :
    ∃ ts ns t, s.Consumes m ts ∧ DerivesAll ss ts ns ∧ areUnambiguous ss = true ∧
      m.rest.head? = some t ∧ t.isReservedWord "end" = true := by
  induction n generalizing s ss with
  | zero =>
      -- without a token to come there is no `end` either
      obtain ⟨more, m', hmore, -⟩ := bind_eq_ok h
      obtain ⟨-, t, hhead, -⟩ := beforeEnd_eq_ok hmore
      have hrest : s.rest = [] := List.length_eq_zero_iff.1 (Nat.le_zero.1 hn)
      simp [hrest] at hhead
  | succ n ih =>
      obtain ⟨more, m', hmore, hrun⟩ := bind_eq_ok h
      obtain ⟨rfl, t, hhead, rfl⟩ := beforeEnd_eq_ok hmore
      split at hrun
      · obtain ⟨a, m₁, ha, hrun₁⟩ := bind_eq_ok hrun
        obtain ⟨as, m₂, has, hpure⟩ := bind_eq_ok hrun₁
        obtain ⟨rfl, rfl⟩ := pure_eq_ok hpure
        obtain ⟨ts, ns, htsConsumes, hts, hunambiguous, hends⟩ := hinner ha
        have hshorter := htsConsumes.length_lt hts.ne_nil
        obtain ⟨us, ms, t', husConsumes, hus, hunambiguous', hend⟩ := ih (by omega) has
        -- a run of declarations would have taken those that the next statement begins with
        have happart : (a.endsInDeclarations && startsWithDeclarations as) = false := by
          rw [Bool.and_eq_false_imp]
          intro hdeclarations
          cases hstarts : startsWithDeclarations as with
          | false => rfl
          | true =>
              have hvar := startsWithDeclarations_of_consumes husConsumes hus hstarts
              exact absurd hvar (by simp [hends.noVar hdeclarations])
        exact ⟨ts ++ us, ns ++ ms, t', htsConsumes.trans husConsumes, .cons hts hus,
          by simp [areUnambiguous, hunambiguous, happart, hunambiguous'], hend⟩
      · next hend =>
          obtain ⟨rfl, rfl⟩ := pure_eq_ok hrun
          exact ⟨[], [], t, .refl _, .nil, rfl, hhead, by simpa using hend⟩

theorem compound_sound {inner : Parser Statement} (hinner : SoundStatement inner)
    {s m : Progress} {ss : List Statement} (h : compound inner s = (.ok ss, m)) :
    ∃ ts ns, s.Consumes m (.word "begin" :: (ts ++ [.word "end"])) ∧ DerivesAll ss ts ns ∧
      areUnambiguous ss = true := by
  obtain ⟨beginToken, m₁, hbegin, hbeginConsumes, hrun₁⟩ := takeWithin_eq_ok h
  obtain ⟨statements, m₂, hstatements, hrun₂⟩ := bind_eq_ok hrun₁
  obtain ⟨_, m₃, hadvance, hpure⟩ := bind_eq_ok hrun₂
  obtain ⟨rfl, rfl⟩ := pure_eq_ok hpure
  obtain ⟨ts, ns, t, hconsumes, hderives, hunambiguous, hhead, hend⟩ :=
    statements_sound hinner _ (Nat.le_refl _) hstatements
  have hendConsumes := advance_eq_ok hhead hadvance
  rw [Token.isReservedWord_iff.1 hbegin] at hbeginConsumes
  rw [Token.isReservedWord_iff.1 hend] at hendConsumes
  exact ⟨ts, ns, hbeginConsumes.cons (hconsumes.trans hendConsumes), hderives, hunambiguous⟩

theorem declare_sound {s m : Progress} {t : Token} {ds : List Declaration}
    (hhead : s.rest.head? = some t) (ht : t.isReservedWord "var" = true)
    (h : declarations s = (.ok ds, m)) :
    ∃ ts ns, s.Consumes m ts ∧ (Statement.declare ds).Derives ts ns ∧
      (Statement.declare ds).EndsBefore m.rest := by
  obtain ⟨hconsumes, hnamed, hnoVar⟩ := declarations_sound h
  -- the token to come is a `var`, so it cannot be that nothing was consumed
  have hne : ds ≠ [] := by
    rintro rfl
    obtain ⟨used, hrest, hused⟩ := hconsumes
    obtain rfl : used = [] := by simpa [Declaration.terminalsAll] using hused
    rw [List.nil_append] at hrest
    rw [← hrest, hhead] at hnoVar
    exact absurd ht (by simpa using hnoVar)
  have hclosed : (Statement.declare ds).endsOpen = false := rfl
  exact ⟨_, _, hconsumes, .declare hne hnamed, by simp [hclosed], fun _ => hnoVar⟩

theorem statementBody_sound {inner : Parser Statement} (hinner : SoundStatement inner) :
    SoundStatement (statementBody inner) := by
  intro s m a h
  obtain ⟨t, s', hcurrent, hrun⟩ := bind_eq_ok h
  obtain ⟨rfl, hhead⟩ := current_eq_ok hcurrent
  cases hkind : t.kind with
  | identifier =>
      simp only [hkind] at hrun
      exact assignment_sound hrun
  | reservedWord =>
      simp only [hkind] at hrun
      by_cases hvar : t.lexeme = "var"
      · simp only [hvar] at hrun
        obtain ⟨ds, m', hds, hpure⟩ := bind_eq_ok hrun
        obtain ⟨rfl, rfl⟩ := pure_eq_ok hpure
        have ht : t.isReservedWord "var" = true := by
          simp [Token.isReservedWord, Token.isSpelled, hkind, hvar]
        obtain ⟨ts, ns, hconsumes, hderives, hends⟩ := declare_sound hhead ht hds
        exact ⟨ts, ns, hconsumes, hderives, rfl, hends⟩
      by_cases hbegin : t.lexeme = "begin"
      · simp only [hbegin] at hrun
        obtain ⟨ss, m', hss, hpure⟩ := bind_eq_ok hrun
        obtain ⟨rfl, rfl⟩ := pure_eq_ok hpure
        obtain ⟨ts, ns, hconsumes, hderives, hunambiguous⟩ := compound_sound hinner hss
        exact ⟨_, _, hconsumes, .compound hderives, hunambiguous, .of_closed rfl rfl _⟩
      by_cases hif : t.lexeme = "if"
      · simp only [hif] at hrun
        exact conditional_sound hinner hrun
      by_cases hwhile : t.lexeme = "while"
      · simp only [hwhile] at hrun
        exact repetitive_sound hinner hrun
      · simp only at hrun
        exact absurd hrun refuse_ne_ok
  | _ =>
      simp only [hkind] at hrun
      exact absurd hrun refuse_ne_ok

theorem statementWithin_sound (levels : Nat) : SoundStatement (statementWithin levels) := by
  induction levels with
  | zero => exact fun h => absurd h refuseDepth_ne_ok
  | succ levels ih =>
      intro s m a h
      obtain ⟨s', m', hrun, hs, hm⟩ := nested_eq_ok h
      obtain ⟨ts, ns, hconsumes, hderives, hunambiguous, hends⟩ := statementBody_sound ih hrun
      exact ⟨ts, ns, hconsumes.of_rest_eq hs.symm hm.symm, hderives, hunambiguous, hm ▸ hends⟩

/-! ### How derivations are read -/

/-- Tokens with these terminals are read as the body of the statement on a level that is already
taken, if the levels of the statement suffice and the next token does not belong to it. -/
def ReadableStatement (a : Statement) (us : List Terminal) (ns : List Nat) : Prop :=
  ∀ (levels depth : Nat) (ts rest : List Token) (last : Option Token),
    ts.map Token.terminal = us → a.EndsBefore rest → rest ≠ [] → maxDepth ≤ levels + depth →
      depth ≤ maxDepth →
        Reads (statementBody (statementWithin levels)) ⟨ts ++ rest, last, depth⟩
          (∀ n ∈ ns, depth + n ≤ maxDepth + 1) a rest depth

theorem ReadableStatement.statementWithin {a : Statement} {us : List Terminal} {ns : List Nat}
    (ha : ReadableStatement a us ns) (hone : 1 ∈ ns) {levels depth : Nat} {ts rest : List Token}
    (hts : ts.map Token.terminal = us) (hends : a.EndsBefore rest) (hrest : rest ≠ [])
    (hlevels : maxDepth ≤ levels + depth) (last : Option Token) :
    Reads (statementWithin levels) ⟨ts ++ rest, last, depth⟩ (∀ n ∈ ns, depth + n ≤ maxDepth) a
      rest depth := by
  cases levels with
  | zero =>
      -- the counter is used up only where every level is taken, and the statement takes one
      refine ⟨fun hfits => ?_, fun _ => refusedDepth_refuseDepth _⟩
      have hdepth := hfits 1 hone
      omega
  | succ levels =>
      have hbody : depth < maxDepth → Reads (statementBody (Parser.statementWithin levels))
          ⟨ts ++ rest, last, depth + 1⟩ (∀ n ∈ ns, depth + 1 + n ≤ maxDepth + 1) a rest
          (depth + 1) := fun hdepth =>
        ha levels (depth + 1) ts rest last hts hends hrest (by omega) hdepth
      refine Reads.of_iff (Reads.nested hbody) ⟨fun hfits => ⟨hfits 1 hone, fun n hn => ?_⟩,
        fun hfits n hn => ?_⟩
      · have hdepth := hfits n hn
        omega
      · have hdepth := hfits.2 n hn
        omega

/-- What follows a condition or a value cannot go on with it. -/
theorem Stops.of_word {accepts : BinaryOperator → Bool} {t : Token} {lexeme : String}
    (ht : t.terminal = .word lexeme) (rest : List Token) : Stops accepts (t :: rest) := by
  refine .of_kind ?_
  rw [Token.kind_eq, ht]
  simp [Terminal.word, Category.kind]

theorem Stops.of_symbol {accepts : BinaryOperator → Bool} {t : Token} {lexeme : String}
    (ht : t.terminal = .symbol lexeme) (rest : List Token) : Stops accepts (t :: rest) := by
  refine .of_kind ?_
  rw [Token.kind_eq, ht]
  simp [Terminal.symbol, Category.kind]

theorem readable_assign {target : String} {t : Terminal} {value : Expression}
    {us : List Terminal} (ht : t.category = .assignmentOperator)
    (hvalue : value.Derives .whole us) :
    ReadableStatement (.assign target value) (.name target :: t :: (us ++ [.symbol ";"]))
      [1, 1 + value.levels us] := by
  intro levels depth ts rest last hts hends hrest hlevels hdepth
  obtain ⟨name, ts₁, rfl, hname, hts₁⟩ := List.map_eq_cons_iff.1 hts
  obtain ⟨op, ts₂, rfl, rfl, hts₂⟩ := List.map_eq_cons_iff.1 hts₁
  obtain ⟨es, ts₃, rfl, rfl, hts₃⟩ := List.map_eq_append_iff.1 hts₂
  obtain ⟨semicolon, rfl, hsemicolon⟩ := List.map_eq_singleton_iff.1 hts₃
  have hkind : name.kind = .identifier := by
    rw [Token.kind_eq, hname]
    rfl
  have hlexeme : name.lexeme = target := congrArg Terminal.lexeme hname
  have hname' : isIdentifier name = true := by simp [isIdentifier, hkind]
  have hop : (op.category == .assignmentOperator) = true := beq_iff_eq.2 ht
  rw [List.cons_append, List.cons_append, List.append_assoc, List.singleton_append]
  refine Reads.of_iff (Reads.of_run (run_current ..) ?_)
    (show _ ↔ depth + value.levels (es.map Token.terminal) ≤ maxDepth by simp; omega)
  simp only [hkind]
  refine Reads.takeWithin hname' (by simp) ?_
  refine Reads.takeWithin hop (by simp) ?_
  refine (reads_rootExpression hvalue (.of_symbol hsemicolon rest) _ depth).bind_good fun _ _ => ?_
  rw [hlexeme]
  exact Reads.take (Token.isSymbol_iff.2 hsemicolon) (.of_ok rfl)

theorem readable_declare {ds : List Declaration} (hnamed : Declaration.AllNamed ds)
    (hne : ds ≠ []) : ReadableStatement (.declare ds) (Declaration.terminalsAll ds) [1] := by
  intro levels depth ts rest last hts hends hrest hlevels hdepth
  obtain ⟨t, ts', rfl, ht⟩ : ∃ t ts', ts = t :: ts' ∧ t.terminal = .word "var" := by
    obtain ⟨d, ds, rfl⟩ := List.exists_cons_of_ne_nil hne
    obtain ⟨t, ts', rfl, ht, -⟩ := List.map_eq_cons_iff.1 hts
    exact ⟨t, ts', rfl, ht⟩
  obtain ⟨last', hrun⟩ := run_declarations hnamed hts hrest (hends.noVar rfl) last depth
  obtain ⟨hkind, hlexeme⟩ := Token.word_fields ht
  refine Reads.of_iff (Reads.of_run (run_current ..) ?_) (iff_true_intro (by simpa using hdepth))
  simp only [hkind, hlexeme]
  exact .of_run hrun (.of_ok rfl)

/-- Tokens with these terminals are read as the statements before an `end`. -/
def ReadableStatements (ss : List Statement) (us : List Terminal) (ns : List Nat) : Prop :=
  ∀ (levels depth n : Nat) (ts rest : List Token) (last : Option Token) (t : Token),
    ts.map Token.terminal = us → t.terminal = .word "end" → maxDepth ≤ levels + depth →
      (ts ++ t :: rest).length ≤ n →
        Reads (manyUpTo beforeEnd (statementWithin levels) n) ⟨ts ++ t :: rest, last, depth⟩
          (∀ n ∈ ns, depth + n ≤ maxDepth) ss (t :: rest) depth

theorem ReadableStatements.compound {ss : List Statement} {us : List Terminal} {ns : List Nat}
    (hss : ReadableStatements ss us ns) {levels depth : Nat} {ts : List Token}
    (hts : ts.map Token.terminal = .word "begin" :: (us ++ [.word "end"]))
    (hlevels : maxDepth ≤ levels + depth) (rest : List Token) (last : Option Token) :
    Reads (compound (statementWithin levels)) ⟨ts ++ rest, last, depth⟩
      (∀ n ∈ ns, depth + n ≤ maxDepth) ss rest depth := by
  obtain ⟨t, ts₁, rfl, ht, hts₁⟩ := List.map_eq_cons_iff.1 hts
  obtain ⟨inner, ts₂, rfl, hinner, hts₂⟩ := List.map_eq_append_iff.1 hts₁
  obtain ⟨t', rfl, ht'⟩ := List.map_eq_singleton_iff.1 hts₂
  rw [List.cons_append, List.append_assoc, List.singleton_append]
  refine Reads.takeWithin (Token.isReservedWord_iff.2 ht) (by simp) ?_
  refine (hss levels depth _ inner rest _ t' hinner ht' hlevels (Nat.le_refl _)).bind_good
    fun _ _ => ?_
  exact Reads.of_run (run_advance ..) (.of_ok rfl)

/-- The levels of an inner statement, counted from the level that its outer one takes. -/
theorem forall_map_add_one_le_iff {ns : List Nat} {depth : Nat} :
    (∀ n ∈ ns.map (1 + ·), depth + n ≤ maxDepth + 1) ↔ ∀ n ∈ ns, depth + n ≤ maxDepth := by
  rw [List.forall_mem_map]
  constructor
  · intro h n hn
    have hdepth := h n hn
    omega
  · intro h n hn
    have hdepth := h n hn
    omega

/-- The levels of a statement with a condition, seen from the level that it takes. -/
theorem forall_conditional_le_iff {ns : List Nat} {levels depth : Nat} (hdepth : depth ≤ maxDepth) :
    (∀ n ∈ 1 :: (1 + levels) :: ns.map (1 + ·), depth + n ≤ maxDepth + 1) ↔
      depth + levels ≤ maxDepth ∧ ∀ n ∈ ns, depth + n ≤ maxDepth := by
  rw [List.forall_mem_cons, List.forall_mem_cons, forall_map_add_one_le_iff,
    and_iff_right (by omega)]
  exact and_congr_left' (by omega)

theorem ReadableStatements.readable {ss : List Statement} {us : List Terminal} {ns : List Nat}
    (hss : ReadableStatements ss us ns) :
    ReadableStatement (.compound ss) (.word "begin" :: (us ++ [.word "end"]))
      (1 :: ns.map (1 + ·)) := by
  intro levels depth ts rest last hts hends hrest hlevels hdepth
  have hcompound := hss.compound hts hlevels rest last
  obtain ⟨t, ts', rfl, ht, -⟩ := List.map_eq_cons_iff.1 hts
  obtain ⟨hkind, hlexeme⟩ := Token.word_fields ht
  rw [List.forall_mem_cons, forall_map_add_one_le_iff]
  refine Reads.of_iff (Reads.of_run (run_current ..) ?_) (and_iff_right (by omega))
  simp only [hkind, hlexeme]
  exact hcompound.bind_good fun _ _ => .of_good ⟨_, rfl⟩

/-- A header is read before what goes on behind it. -/
theorem Reads.header {α : Type} {opening closing : String}
    {before within behind after : FaultKind} {f : Expression → Parser α} {first t : Token}
    {condition : Expression} {es ts rest : List Token} {last : Option Token} {depth : Nat}
    {fits : Prop} {a : α} (hfirst : first.terminal = .word opening)
    (hcondition : condition.Derives .whole (es.map Token.terminal))
    (ht : t.terminal = .word closing) (hts : ts ≠ [])
    (hf : Reads (f condition) ⟨ts, some t, depth⟩ fits a rest depth) :
    Reads (do
      let _ ← expect (·.isReservedWord opening) before
      advanceWithin within
      let condition ← rootExpression
      let _ ← expect (·.isReservedWord closing) behind
      advanceWithin after
      f condition) ⟨first :: (es ++ t :: ts), last, depth⟩
      (depth + condition.levels (es.map Token.terminal) ≤ maxDepth ∧ fits) a rest depth := by
  refine Reads.takeWithin (Token.isReservedWord_iff.2 hfirst) (by simp) ?_
  refine (reads_rootExpression hcondition (.of_word ht _) _ depth).bind fun _ _ => ?_
  exact Reads.takeWithin (Token.isReservedWord_iff.2 ht) hts hf

theorem ReadableStatement.ifThen {condition : Expression} {branch : Statement}
    {us vs : List Terminal} {ns : List Nat} (hcondition : condition.Derives .whole us)
    (hbranch : ReadableStatement branch vs ns) (hone : 1 ∈ ns) :
    ReadableStatement (.ifThen condition branch) (.word "if" :: (us ++ .word "then" :: vs))
      (1 :: (1 + condition.levels us) :: ns.map (1 + ·)) := by
  intro levels depth ts rest last hts hends hrest hlevels hdepth
  obtain ⟨ifToken, ts₁, rfl, hif, hts₁⟩ := List.map_eq_cons_iff.1 hts
  obtain ⟨es, ts₂, rfl, rfl, hts₂⟩ := List.map_eq_append_iff.1 hts₁
  obtain ⟨thenToken, ts₃, rfl, hthen, hts₃⟩ := List.map_eq_cons_iff.1 hts₂
  obtain ⟨hkind, hlexeme⟩ := Token.word_fields hif
  have hbranchEnds : branch.EndsBefore rest := ⟨fun _ => hends.noElse rfl, hends.noVar⟩
  rw [List.cons_append, List.append_assoc, List.cons_append]
  refine Reads.of_iff (Reads.of_run (run_current ..) ?_) (forall_conditional_le_iff hdepth)
  simp only [hkind, hlexeme]
  refine Reads.header hif hcondition hthen (by simp [hrest]) ?_
  refine (hbranch.statementWithin hone hts₃ hbranchEnds hrest hlevels _).bind_good fun _ _ => ?_
  refine Reads.of_run (run_isNext ..) ?_
  rw [if_neg (by simpa using hends.noElse rfl)]
  exact Reads.of_ok rfl

theorem ReadableStatement.ifThenElse {condition : Expression} {branch alternative : Statement}
    {us vs ws : List Terminal} {ns ms : List Nat} (hcondition : condition.Derives .whole us)
    (hclosed : branch.endsOpen = false) (hbranch : ReadableStatement branch vs ns)
    (hone : 1 ∈ ns) (halternative : ReadableStatement alternative ws ms) (hone' : 1 ∈ ms) :
    ReadableStatement (.ifThenElse condition branch alternative)
      (.word "if" :: (us ++ .word "then" :: (vs ++ .word "else" :: ws)))
      (1 :: (1 + condition.levels us) :: (ns.map (1 + ·) ++ ms.map (1 + ·))) := by
  intro levels depth ts rest last hts hends hrest hlevels hdepth
  obtain ⟨ifToken, ts₁, rfl, hif, hts₁⟩ := List.map_eq_cons_iff.1 hts
  obtain ⟨es, ts₂, rfl, rfl, hts₂⟩ := List.map_eq_append_iff.1 hts₁
  obtain ⟨thenToken, ts₃, rfl, hthen, hts₃⟩ := List.map_eq_cons_iff.1 hts₂
  obtain ⟨bs, ts₄, rfl, hbs, hts₄⟩ := List.map_eq_append_iff.1 hts₃
  obtain ⟨elseToken, as, rfl, helse, has⟩ := List.map_eq_cons_iff.1 hts₄
  obtain ⟨hkind, hlexeme⟩ := Token.word_fields hif
  -- the branch is closed, so the alternative does not belong to a conditional inside it
  have hbranchEnds : branch.EndsBefore (elseToken :: (as ++ rest)) := by
    refine ⟨fun hopen => absurd hopen (by simp [hclosed]), fun _ => ?_⟩
    have hvar : ¬elseToken.isReservedWord "var" = true := by
      rw [Token.isReservedWord_iff, helse]
      decide
    simpa using hvar
  have halternativeEnds : alternative.EndsBefore rest := ⟨hends.noElse, hends.noVar⟩
  simp only [List.cons_append, List.append_assoc]
  rw [← List.map_append]
  refine Reads.of_iff (Reads.of_run (run_current ..) ?_)
    ((forall_conditional_le_iff hdepth).trans (and_congr_right' List.forall_mem_append))
  simp only [hkind, hlexeme]
  refine Reads.header hif hcondition hthen (by simp) ?_
  refine (hbranch.statementWithin hone hbs hbranchEnds (by simp) hlevels _).bind fun _ _ => ?_
  refine Reads.of_run (run_isNext ..) ?_
  rw [if_pos (by simpa using Token.isReservedWord_iff.2 helse)]
  refine Reads.of_run (run_advanceWithin _ _ (by simp [hrest]) ..) ?_
  refine (halternative.statementWithin hone' has halternativeEnds hrest hlevels _).bind_good
    fun _ _ => ?_
  exact Reads.of_ok rfl

theorem ReadableStatement.whileDo {condition : Expression} {body : Statement}
    {us vs : List Terminal} {ns : List Nat} (hcondition : condition.Derives .whole us)
    (hbody : ReadableStatement body vs ns) (hone : 1 ∈ ns) :
    ReadableStatement (.whileDo condition body) (.word "while" :: (us ++ .word "do" :: vs))
      (1 :: (1 + condition.levels us) :: ns.map (1 + ·)) := by
  intro levels depth ts rest last hts hends hrest hlevels hdepth
  obtain ⟨whileToken, ts₁, rfl, hwhile, hts₁⟩ := List.map_eq_cons_iff.1 hts
  obtain ⟨es, ts₂, rfl, rfl, hts₂⟩ := List.map_eq_append_iff.1 hts₁
  obtain ⟨doToken, ts₃, rfl, hdo, hts₃⟩ := List.map_eq_cons_iff.1 hts₂
  obtain ⟨hkind, hlexeme⟩ := Token.word_fields hwhile
  have hbodyEnds : body.EndsBefore rest := ⟨hends.noElse, hends.noVar⟩
  rw [List.cons_append, List.append_assoc, List.cons_append]
  refine Reads.of_iff (Reads.of_run (run_current ..) ?_) (forall_conditional_le_iff hdepth)
  simp only [hkind, hlexeme]
  refine Reads.header hwhile hcondition hdo (by simp [hrest]) ?_
  refine (hbody.statementWithin hone hts₃ hbodyEnds hrest hlevels _).bind_good fun _ _ => ?_
  exact Reads.of_ok rfl

theorem readableStatements_nil : ReadableStatements [] [] [] := by
  intro levels depth n ts rest last t hts ht hlevels hn
  obtain rfl : ts = [] := by simpa using hts
  have hend : t.isReservedWord "end" = true := Token.isReservedWord_iff.2 ht
  cases n with
  | zero => exact absurd hn (by simp)
  | succ n =>
      refine Reads.of_iff (Reads.of_run (run_beforeEnd ..) ?_) (iff_true_intro (by simp))
      rw [if_neg (by simp [hend])]
      exact Reads.of_ok rfl

/-- What follows a statement in a list, or behind the list, does not belong to it. -/
theorem endsBefore_of_derivesAll {a : Statement} {as : List Statement} {us : List Terminal}
    {ns : List Nat} {ts rest : List Token} {t : Token} (has : DerivesAll as us ns)
    (happart : (a.endsInDeclarations && startsWithDeclarations as) = false)
    (hts : ts.map Token.terminal = us) (ht : t.terminal = .word "end") :
    a.EndsBefore (ts ++ t :: rest) := by
  cases has with
  | nil =>
      obtain rfl : ts = [] := by simpa using hts
      exact .of_head (by simp [ht, Terminal.word]) fun _ => by simp [ht, Terminal.word]
  | cons hb hbs =>
      obtain ⟨v, vs, rfl, hvElse, -, hvVar⟩ := hb.starts
      obtain ⟨next, tail, rfl, hnext, -⟩ := List.map_eq_cons_iff.1 hts
      rw [Statement.startsWithDeclarations_cons] at happart
      refine .of_head (hnext ▸ hvElse) fun hdeclarations hvar => ?_
      have hstarts := hvVar.1 (hnext ▸ hvar)
      simp [hdeclarations, hstarts] at happart

theorem ReadableStatements.cons {a : Statement} {as : List Statement} {us vs : List Terminal}
    {ns ms : List Nat} (hderives : a.Derives us ns) (hderives' : DerivesAll as vs ms)
    (happart : (a.endsInDeclarations && startsWithDeclarations as) = false)
    (ha : ReadableStatement a us ns) (has : ReadableStatements as vs ms) :
    ReadableStatements (a :: as) (us ++ vs) (ns ++ ms) := by
  intro levels depth n ts rest last t hts ht hlevels hn
  obtain ⟨ts₁, ts₂, rfl, hts₁, hts₂⟩ := List.map_eq_append_iff.1 hts
  obtain ⟨u, us', hus, -, huEnd, -⟩ := hderives.starts
  obtain ⟨first, tail, rfl, hfirst, -⟩ := List.map_eq_cons_iff.1 (hts₁.trans hus)
  -- no statement begins with `end`, so the list goes on
  have hmore : first.isReservedWord "end" = false := by
    simpa [← Bool.not_eq_true, Token.isReservedWord_iff, hfirst] using huEnd
  have hends : a.EndsBefore (ts₂ ++ t :: rest) :=
    endsBefore_of_derivesAll hderives' happart hts₂ ht
  cases n with
  | zero => simp at hn
  | succ n =>
      rw [List.append_assoc]
      refine Reads.of_iff (Reads.of_run (run_beforeEnd ..) ?_) List.forall_mem_append
      rw [if_pos (by simp [hmore])]
      refine (ha.statementWithin hderives.one_mem hts₁ hends (by simp) hlevels last).bind
        fun _ _ => ?_
      refine (has levels depth n ts₂ rest _ t hts₂ ht hlevels ?_).bind_good fun _ _ => ?_
      · simp only [List.length_append, List.length_cons] at hn ⊢
        omega
      · exact Reads.of_ok rfl

mutual

/-- Every derivation of an unambiguous statement is read as that statement. -/
theorem readable_of_derives {a : Statement} {us : List Terminal} {ns : List Nat}
    (h : a.Derives us ns) (hunambiguous : a.isUnambiguous = true) :
    ReadableStatement a us ns := by
  cases h with
  | assign ht hvalue => exact readable_assign ht hvalue
  | declare hne hnamed => exact readable_declare hnamed hne
  | compound hss => exact (readableStatements_of_derives hss hunambiguous).readable
  | ifThen hcondition hbranch =>
      exact (readable_of_derives hbranch hunambiguous).ifThen hcondition hbranch.one_mem
  | ifThenElse hcondition hbranch halternative =>
      simp only [Statement.isUnambiguous, Bool.and_eq_true, Bool.not_eq_true'] at hunambiguous
      obtain ⟨⟨hclosed, hunambiguous₁⟩, hunambiguous₂⟩ := hunambiguous
      exact (readable_of_derives hbranch hunambiguous₁).ifThenElse hcondition hclosed
        hbranch.one_mem (readable_of_derives halternative hunambiguous₂) halternative.one_mem
  | whileDo hcondition hbody =>
      exact (readable_of_derives hbody hunambiguous).whileDo hcondition hbody.one_mem

/-- Every derivation of unambiguous statements is read as those statements. -/
theorem readableStatements_of_derives {as : List Statement} {us : List Terminal} {ns : List Nat}
    (h : DerivesAll as us ns) (hunambiguous : areUnambiguous as = true) :
    ReadableStatements as us ns := by
  cases h with
  | nil => exact readableStatements_nil
  | cons ha has =>
      simp only [areUnambiguous, Bool.and_eq_true, Bool.not_eq_true'] at hunambiguous
      obtain ⟨⟨hunambiguous₁, happart⟩, hunambiguous₂⟩ := hunambiguous
      exact .cons ha has happart (readable_of_derives ha hunambiguous₁)
        (readableStatements_of_derives has hunambiguous₂)

end

end Parser

end MiniPascal
