import MiniPascal.Parser.Statement
import MiniPascal.Proofs.Grammar

/-!
# Runs of parsers

A run that succeeds is taken apart into the runs of its steps (`bind_eq_ok`), each
of which consumes some terminals.  In the other direction `Reads` says how a run on
given tokens ends when only the levels of nesting can be missing: it succeeds if they
suffice, and else it is refused for its depth.
-/

namespace MiniPascal

theorem Token.isReservedWord_iff {t : Token} {lexeme : String} :
    t.isReservedWord lexeme = true ↔ t.terminal = .word lexeme := by
  obtain ⟨category, spelling, line, column⟩ := t
  cases category <;>
    simp [isReservedWord, isSpelled, kind, Category.kind, terminal, Terminal.word]

theorem Token.isSymbol_iff {t : Token} {lexeme : String} :
    t.isSymbol lexeme = true ↔ t.terminal = .symbol lexeme := by
  obtain ⟨category, spelling, line, column⟩ := t
  cases category <;> simp [isSymbol, isSpelled, kind, Category.kind, terminal, Terminal.symbol]

theorem Parser.isIdentifier_iff {t : Token} :
    isIdentifier t = true ↔ t.terminal = .name t.lexeme := by
  obtain ⟨category, spelling, line, column⟩ := t
  cases category <;>
    simp [isIdentifier, Token.kind, Category.kind, Token.terminal, Terminal.name]

theorem BinaryOperator.ofSpelling?_eq_some_iff {text : String} {op : BinaryOperator} :
    ofSpelling? text = some op ↔ text = op.spelling := by
  constructor
  · intro h
    have hspelling := List.find?_some h
    exact (eq_of_beq hspelling).symm
  · rintro rfl
    cases op <;> decide

theorem TypeName.ofSpelling?_eq_some_iff {text : String} {type : TypeName} :
    ofSpelling? text = some type ↔ text = type.spelling := by
  constructor
  · intro h
    have hspelling := List.find?_some h
    exact (eq_of_beq hspelling).symm
  · rintro rfl
    cases type <;> decide

namespace Progress

/-- `m` is reached from `s` by consuming tokens with these terminals. -/
def Consumes (s m : Progress) (ts : List Terminal) : Prop :=
  ∃ used, s.rest = used ++ m.rest ∧ used.map Token.terminal = ts

theorem Consumes.refl (s : Progress) : s.Consumes s [] :=
  ⟨[], rfl, rfl⟩

theorem Consumes.one {s m : Progress} {t : Token} (h : s.rest = t :: m.rest) :
    s.Consumes m [t.terminal] :=
  ⟨[t], h, rfl⟩

theorem Consumes.trans {s m n : Progress} {ts us : List Terminal}
    (h₁ : s.Consumes m ts) (h₂ : m.Consumes n us) : s.Consumes n (ts ++ us) := by
  obtain ⟨used₁, hs, rfl⟩ := h₁
  obtain ⟨used₂, hm, rfl⟩ := h₂
  exact ⟨used₁ ++ used₂, by rw [hs, hm, List.append_assoc], List.map_append⟩

/-- Consuming a terminal after which `us` are consumed. -/
theorem Consumes.cons {s m n : Progress} {t : Terminal} {us : List Terminal}
    (h₁ : s.Consumes m [t]) (h₂ : m.Consumes n us) : s.Consumes n (t :: us) :=
  h₁.trans h₂

theorem Consumes.length_lt {s m : Progress} {ts : List Terminal} (h : s.Consumes m ts)
    (hne : ts ≠ []) : m.rest.length < s.rest.length := by
  obtain ⟨used, hs, rfl⟩ := h
  have hpos : 0 < used.length := List.length_pos_iff.2 (by simpa using hne)
  rw [hs, List.length_append]
  omega

/-- Changing the last token or the levels consumes nothing. -/
theorem Consumes.of_rest_eq {s m s' m' : Progress} {ts : List Terminal} (h : s.Consumes m ts)
    (hs : s'.rest = s.rest) (hm : m'.rest = m.rest) : s'.Consumes m' ts := by
  obtain ⟨used, hused, hts⟩ := h
  exact ⟨used, by rw [hs, hm, hused], hts⟩

end Progress

namespace Parser

variable {α β : Type}

theorem run_bind (p : Parser α) (f : α → Parser β) (s : Progress) :
    (p >>= f) s = match p s with
      | (.ok a, m) => f a m
      | (.error fault, m) => (.error fault, m) := rfl

@[simp]
theorem run_pure (a : α) (s : Progress) : (pure a : Parser α) s = (.ok a, s) := rfl

theorem run_bind_of_ok {p : Parser α} {f : α → Parser β} {s m : Progress} {a : α}
    (h : p s = (.ok a, m)) : (p >>= f) s = f a m := by
  rw [run_bind, h]

theorem run_bind_of_error {p : Parser α} {f : α → Parser β} {s m : Progress} {fault : Fault}
    (h : p s = (.error fault, m)) : (p >>= f) s = (.error fault, m) := by
  rw [run_bind, h]

/-! ### Runs that succeed -/

/-- A sequence succeeds through a success of its first part. -/
theorem bind_eq_ok {p : Parser α} {f : α → Parser β} {s n : Progress} {b : β}
    (h : (p >>= f) s = (.ok b, n)) : ∃ a m, p s = (.ok a, m) ∧ f a m = (.ok b, n) := by
  rw [run_bind] at h
  split at h
  · next a m hp => exact ⟨a, m, hp, h⟩
  · simp at h

/-- A sequence is refused by its first part or by what goes on behind a success of it. -/
theorem bind_eq_error {p : Parser α} {f : α → Parser β} {s n : Progress} {fault : Fault}
    (h : (p >>= f) s = (.error fault, n)) :
    p s = (.error fault, n) ∨ ∃ a m, p s = (.ok a, m) ∧ f a m = (.error fault, n) := by
  rw [run_bind] at h
  split at h
  · next a m hp => exact .inr ⟨a, m, hp, h⟩
  · next fault' m hp =>
      obtain ⟨hfault, rfl⟩ := Prod.mk.inj h
      obtain rfl := Except.error.inj hfault
      exact .inl hp

theorem pure_eq_ok {a b : α} {s m : Progress} (h : (pure a : Parser α) s = (.ok b, m)) :
    b = a ∧ m = s := by
  simp only [run_pure, Prod.mk.injEq, Except.ok.injEq] at h
  exact ⟨h.1.symm, h.2.symm⟩

theorem refuse_ne_ok {kind : FaultKind} {t : Token} {s m : Progress} {a : α} :
    refuse kind t s ≠ (.ok a, m) := by
  simp [refuse]

theorem refuseDepth_ne_ok {s m : Progress} {a : α} : refuseDepth s ≠ (.ok a, m) := by
  simp [refuseDepth]

theorem current_eq_ok {kind : FaultKind} {s m : Progress} {t : Token}
    (h : current kind s = (.ok t, m)) : m = s ∧ s.rest.head? = some t := by
  unfold current at h
  split at h
  · next u us hrest =>
      simp only [Prod.mk.injEq, Except.ok.injEq] at h
      exact ⟨h.2.symm, by simp [hrest, h.1]⟩
  · simp at h

theorem expect_eq_ok {accepts : Token → Bool} {kind : FaultKind} {s m : Progress} {t : Token}
    (h : expect accepts kind s = (.ok t, m)) :
    m = s ∧ s.rest.head? = some t ∧ accepts t = true := by
  obtain ⟨u, n, hcurrent, hrun⟩ := bind_eq_ok h
  obtain ⟨hn, hhead⟩ := current_eq_ok hcurrent
  split at hrun
  · next haccepts =>
      obtain ⟨rfl, rfl⟩ := pure_eq_ok hrun
      exact ⟨hn, hhead, haccepts⟩
  · exact absurd hrun refuse_ne_ok

theorem advance_eq_ok {s m : Progress} {t : Token} (hhead : s.rest.head? = some t)
    (h : advance s = (.ok (), m)) : s.Consumes m [t.terminal] := by
  unfold advance at h
  split at h
  · next u us hrest =>
      simp only [Prod.mk.injEq, true_and] at h
      simp only [hrest, List.head?_cons, Option.some.injEq] at hhead
      subst hhead
      subst h
      exact .one hrest
  · next hrest => simp [hrest] at hhead

theorem advanceWithin_eq_ok {kind : FaultKind} {s m : Progress} {t : Token}
    (hhead : s.rest.head? = some t) (h : advanceWithin kind s = (.ok (), m)) :
    s.Consumes m [t.terminal] := by
  obtain ⟨u, n, hcurrent, hrun⟩ := bind_eq_ok h
  obtain ⟨rfl, -⟩ := current_eq_ok hcurrent
  obtain ⟨_, n', hadvance, hrun'⟩ := bind_eq_ok hrun
  obtain ⟨following, n'', hpeek, hrun''⟩ := bind_eq_ok hrun'
  obtain ⟨-, rfl⟩ := Prod.mk.inj hpeek
  split at hrun''
  · obtain ⟨-, rfl⟩ := pure_eq_ok hrun''
    exact advance_eq_ok hhead hadvance
  · exact absurd hrun'' refuse_ne_ok

/-- A token that has to be accepted is consumed, and the run goes on behind it. -/
theorem take_eq_ok {accepts : Token → Bool} {kind : FaultKind} {f : Token → Parser β}
    {s n : Progress} {b : β}
    (h : (do let t ← expect accepts kind; advance; f t) s = (.ok b, n)) :
    ∃ t m, accepts t = true ∧ s.Consumes m [t.terminal] ∧ f t m = (.ok b, n) := by
  obtain ⟨t, m, hexpect, hrun⟩ := bind_eq_ok h
  obtain ⟨rfl, hhead, haccepts⟩ := expect_eq_ok hexpect
  obtain ⟨_, m', hadvance, hrun'⟩ := bind_eq_ok hrun
  exact ⟨t, m', haccepts, advance_eq_ok hhead hadvance, hrun'⟩

/-- As `take_eq_ok`, when the token must not be the last one. -/
theorem takeWithin_eq_ok {accepts : Token → Bool} {kind after : FaultKind} {f : Token → Parser β}
    {s n : Progress} {b : β}
    (h : (do let t ← expect accepts kind; advanceWithin after; f t) s = (.ok b, n)) :
    ∃ t m, accepts t = true ∧ s.Consumes m [t.terminal] ∧ f t m = (.ok b, n) := by
  obtain ⟨t, m, hexpect, hrun⟩ := bind_eq_ok h
  obtain ⟨rfl, hhead, haccepts⟩ := expect_eq_ok hexpect
  obtain ⟨_, m', hadvance, hrun'⟩ := bind_eq_ok hrun
  exact ⟨t, m', haccepts, advanceWithin_eq_ok hhead hadvance, hrun'⟩

theorem run_isNext (accepts : Token → Bool) (s : Progress) :
    isNext accepts s = (.ok (s.rest.head?.any accepts), s) := by
  unfold isNext
  rw [run_bind]
  simp only [peek]
  cases s.rest.head? <;> rfl

theorem run_nextOperator (accepts : BinaryOperator → Bool) (s : Progress) :
    nextOperator accepts s =
      (.ok (s.rest.head?.bind fun t =>
        if t.kind == .operator then (BinaryOperator.ofSpelling? t.lexeme).filter accepts
        else none), s) := by
  unfold nextOperator
  rw [run_bind]
  simp only [peek]
  cases s.rest.head? with
  | none => rfl
  | some t =>
      show (if t.kind == TokenKind.operator then _ else _ : Parser _) s = _
      by_cases h : t.kind == TokenKind.operator
      · simp only [h, if_true, Option.bind_some, run_pure]
      · simp only [h, if_false, Option.bind_some, run_pure, Bool.false_eq_true]

/-- The operator to come is denoted by the next token. -/
theorem nextOperator_eq_some {accepts : BinaryOperator → Bool} {s m : Progress}
    {op : BinaryOperator} (h : nextOperator accepts s = (.ok (some op), m)) :
    m = s ∧ accepts op = true ∧ ∃ t, s.rest.head? = some t ∧ t.terminal.Denotes op := by
  rw [run_nextOperator] at h
  simp only [Prod.mk.injEq, Except.ok.injEq, Option.bind_eq_some_iff] at h
  obtain ⟨⟨t, hhead, h⟩, rfl⟩ := h
  split at h
  · next hkind =>
      obtain ⟨hop, haccepts⟩ := Option.filter_eq_some_iff.1 h
      exact ⟨rfl, haccepts, t, hhead, eq_of_beq hkind,
        BinaryOperator.ofSpelling?_eq_some_iff.1 hop⟩
  · simp at h

theorem nextOperator_eq_none {accepts : BinaryOperator → Bool} {s m : Progress}
    (h : nextOperator accepts s = (.ok none, m)) : m = s := by
  rw [run_nextOperator] at h
  simp only [Prod.mk.injEq] at h
  exact h.2.symm

theorem descend_eq_ok {s m : Progress} (h : descend s = (.ok (), m)) : m.rest = s.rest := by
  unfold descend at h
  split at h
  · simp only [Prod.mk.injEq, true_and] at h
    rw [← h]
  · exact absurd h refuseDepth_ne_ok

theorem nested_eq_ok {p : Parser α} {s m : Progress} {a : α} (h : nested p s = (.ok a, m)) :
    ∃ s' m', p s' = (.ok a, m') ∧ s'.rest = s.rest ∧ m'.rest = m.rest := by
  unfold nested at h
  split at h
  · next inner hdescend =>
      simp only [Prod.mk.injEq] at h
      exact ⟨inner, (p inner).2, by rw [← h.1], descend_eq_ok hdescend, by rw [← h.2]⟩
  · simp at h

theorem releasing_eq_ok {p : Parser α} {s m : Progress} {a : α}
    (h : releasing p s = (.ok a, m)) : ∃ m', p s = (.ok a, m') ∧ m'.rest = m.rest := by
  simp only [releasing, Prod.mk.injEq] at h
  exact ⟨(p s).2, by rw [← h.1], by rw [← h.2]⟩

/-! ### Runs on given tokens -/

/-- The run was refused because too many levels are nested. -/
def RefusedDepth (run : Except Fault α × Progress) : Prop :=
  ∃ fault, run.1 = .error fault ∧ fault.kind = .nestingTooDeep

theorem RefusedDepth.bind {p : Parser α} {f : α → Parser β} {s : Progress}
    (h : RefusedDepth (p s)) : RefusedDepth ((p >>= f) s) := by
  obtain ⟨fault, hrun, hkind⟩ := h
  rw [run_bind_of_error (Prod.ext hrun rfl)]
  exact ⟨fault, rfl, hkind⟩

/-- The run ends as `good` says if the levels suffice, and else is refused for its depth. -/
structure Settles (run : Except Fault α × Progress) (fits : Prop)
    (good : Except Fault α × Progress → Prop) : Prop where
  ends : fits → good run
  refused : ¬fits → RefusedDepth run

/-- From `s` the parser reads `a` up to `rest`, on the level `depth`, if the levels suffice; and
else it is refused for its depth. -/
def Reads (p : Parser α) (s : Progress) (fits : Prop) (a : α) (rest : List Token)
    (depth : Nat) : Prop :=
  Settles (p s) fits fun run => ∃ last, run = (.ok a, ⟨rest, last, depth⟩)

theorem Settles.of_iff {run : Except Fault α × Progress} {fits fits' : Prop}
    {good : Except Fault α × Progress → Prop} (h : Settles run fits good) (hfits : fits' ↔ fits) :
    Settles run fits' good :=
  ⟨fun hf => h.ends (hfits.1 hf), fun hf => h.refused (mt hfits.2 hf)⟩

theorem Reads.of_iff {p : Parser α} {s : Progress} {fits fits' : Prop} {a : α}
    {rest : List Token} {depth : Nat} (h : Reads p s fits a rest depth) (hfits : fits' ↔ fits) :
    Reads p s fits' a rest depth :=
  Settles.of_iff h hfits

theorem Settles.of_good {run : Except Fault α × Progress}
    {good : Except Fault α × Progress → Prop} (h : good run) : Settles run True good :=
  ⟨fun _ => h, fun hnot => absurd trivial hnot⟩

theorem Reads.of_ok {p : Parser α} {s : Progress} {a : α} {rest : List Token}
    {last : Option Token} {depth : Nat} (h : p s = (.ok a, ⟨rest, last, depth⟩)) :
    Reads p s True a rest depth :=
  .of_good ⟨last, h⟩

/-- What follows a phrase that is read settles the whole sequence. -/
theorem Reads.bind_settles {p : Parser α} {f : α → Parser β} {s : Progress} {fits fits' : Prop}
    {a : α} {rest : List Token} {depth : Nat} {good : Except Fault β × Progress → Prop}
    (hp : Reads p s fits a rest depth)
    (hf : ∀ last, fits → Settles (f a ⟨rest, last, depth⟩) fits' good) :
    Settles ((p >>= f) s) (fits ∧ fits') good := by
  constructor
  · rintro ⟨hfits, hfits'⟩
    obtain ⟨last, hrun⟩ := hp.ends hfits
    rw [run_bind_of_ok hrun]
    exact (hf last hfits).ends hfits'
  · intro hnot
    by_cases hfits : fits
    · obtain ⟨last, hrun⟩ := hp.ends hfits
      rw [run_bind_of_ok hrun]
      exact (hf last hfits).refused fun hfits' => hnot ⟨hfits, hfits'⟩
    · exact (hp.refused hfits).bind

/-- As `Reads.bind_settles`, when what follows takes no level. -/
theorem Reads.bind_good {p : Parser α} {f : α → Parser β} {s : Progress} {fits : Prop}
    {a : α} {rest : List Token} {depth : Nat} {good : Except Fault β × Progress → Prop}
    (hp : Reads p s fits a rest depth)
    (hf : ∀ last, fits → Settles (f a ⟨rest, last, depth⟩) True good) :
    Settles ((p >>= f) s) fits good :=
  (hp.bind_settles hf).of_iff (and_iff_left trivial).symm

theorem Reads.bind {p : Parser α} {f : α → Parser β} {s : Progress} {fits fits' : Prop}
    {a : α} {b : β} {rest rest' : List Token} {depth depth' : Nat}
    (hp : Reads p s fits a rest depth)
    (hf : ∀ last, fits → Reads (f a) ⟨rest, last, depth⟩ fits' b rest' depth') :
    Reads (p >>= f) s (fits ∧ fits') b rest' depth' :=
  hp.bind_settles hf

/-- A phrase that takes no level of its own is read before another one. -/
theorem Reads.of_run {p : Parser α} {f : α → Parser β} {s m : Progress} {fits : Prop} {a : α}
    {b : β} {rest : List Token} {depth : Nat} (hp : p s = (.ok a, m))
    (hf : Reads (f a) m fits b rest depth) : Reads (p >>= f) s fits b rest depth := by
  unfold Reads
  rw [run_bind_of_ok hp]
  exact hf

theorem run_current (kind : FaultKind) (t : Token) (ts : List Token) (last : Option Token)
    (depth : Nat) :
    current kind ⟨t :: ts, last, depth⟩ = (.ok t, ⟨t :: ts, last, depth⟩) := rfl

theorem run_advance (t : Token) (ts : List Token) (last : Option Token) (depth : Nat) :
    advance ⟨t :: ts, last, depth⟩ = (.ok (), ⟨ts, some t, depth⟩) := rfl

theorem run_advanceWithin (kind : FaultKind) (t : Token) {ts : List Token} (hts : ts ≠ [])
    (last : Option Token) (depth : Nat) :
    advanceWithin kind ⟨t :: ts, last, depth⟩ = (.ok (), ⟨ts, some t, depth⟩) := by
  obtain ⟨u, us, rfl⟩ := List.exists_cons_of_ne_nil hts
  rfl

theorem run_expect {accepts : Token → Bool} {t : Token} (haccepts : accepts t = true)
    (kind : FaultKind) (ts : List Token) (last : Option Token) (depth : Nat) :
    expect accepts kind ⟨t :: ts, last, depth⟩ = (.ok t, ⟨t :: ts, last, depth⟩) := by
  show (if accepts t = true then pure t else refuse kind t : Parser Token) _ = _
  rw [if_pos haccepts, run_pure]

theorem Reads.take {accepts : Token → Bool} {kind : FaultKind} {f : Token → Parser β}
    {t : Token} {ts rest : List Token} {last : Option Token} {depth depth' : Nat} {fits : Prop}
    {b : β} (haccepts : accepts t = true)
    (hf : Reads (f t) ⟨ts, some t, depth⟩ fits b rest depth') :
    Reads (do let t ← expect accepts kind; advance; f t) ⟨t :: ts, last, depth⟩ fits b rest
      depth' :=
  .of_run (run_expect haccepts ..) (.of_run (run_advance ..) hf)

theorem Reads.takeWithin {accepts : Token → Bool} {kind after : FaultKind} {f : Token → Parser β}
    {t : Token} {ts rest : List Token} {last : Option Token} {depth depth' : Nat} {fits : Prop}
    {b : β} (haccepts : accepts t = true) (hts : ts ≠ [])
    (hf : Reads (f t) ⟨ts, some t, depth⟩ fits b rest depth') :
    Reads (do let t ← expect accepts kind; advanceWithin after; f t) ⟨t :: ts, last, depth⟩ fits
      b rest depth' :=
  .of_run (run_expect haccepts ..) (.of_run (run_advanceWithin _ _ hts ..) hf)

theorem refusedDepth_refuseDepth (s : Progress) : RefusedDepth (refuseDepth (α := α) s) := by
  refine ⟨s.tooDeep, rfl, ?_⟩
  unfold Progress.tooDeep
  split
  · rfl
  · unfold Progress.exhausted
    split <;> rfl

theorem refusedDepth_descend {s : Progress} (h : ¬s.depth < maxDepth) :
    RefusedDepth (descend s) := by
  rw [descend, if_neg h]
  exact refusedDepth_refuseDepth s

theorem run_descend {s : Progress} (h : s.depth < maxDepth) :
    descend s = (.ok (), ⟨s.rest, s.last, s.depth + 1⟩) := by
  rw [descend, if_pos h]

/-- A level is only refused where none is left. -/
theorem descend_eq_error {s m : Progress} {fault : Fault} (h : descend s = (.error fault, m)) :
    fault.kind = .nestingTooDeep := by
  by_cases hdepth : s.depth < maxDepth
  · simp [run_descend hdepth] at h
  · obtain ⟨fault', hrun, hkind⟩ := refusedDepth_descend hdepth
    rw [h] at hrun
    rwa [Except.error.inj hrun]

/-- Taking a level settles what comes behind it. -/
theorem descend_settles {f : Unit → Parser β} {s : Progress} {fits : Prop}
    {good : Except Fault β × Progress → Prop} (hfits : fits → s.depth < maxDepth)
    (hf : s.depth < maxDepth → Settles (f () ⟨s.rest, s.last, s.depth + 1⟩) fits good) :
    Settles ((descend >>= f) s) fits good := by
  by_cases h : s.depth < maxDepth
  · rw [run_bind_of_ok (run_descend h)]
    exact hf h
  · exact ⟨fun hf => absurd (hfits hf) h, fun _ => (refusedDepth_descend h).bind⟩

theorem Reads.nested {p : Parser α} {s : Progress} {fits : Prop} {a : α} {rest : List Token}
    (hp : s.depth < maxDepth → Reads p ⟨s.rest, s.last, s.depth + 1⟩ fits a rest (s.depth + 1)) :
    Reads (nested p) s (s.depth < maxDepth ∧ fits) a rest s.depth := by
  unfold Reads Parser.nested
  by_cases h : s.depth < maxDepth
  · rw [run_descend h]
    constructor
    · rintro ⟨-, hfits⟩
      obtain ⟨last, hrun⟩ := (hp h).ends hfits
      exact ⟨last, by simp [hrun]⟩
    · intro hnot
      obtain ⟨fault, hrun, hkind⟩ := (hp h).refused fun hfits => hnot ⟨h, hfits⟩
      exact ⟨fault, hrun, hkind⟩
  · obtain ⟨fault, hrun, hkind⟩ := refusedDepth_descend h
    rw [show descend s = (.error fault, (descend s).2) from Prod.ext hrun rfl]
    exact ⟨fun hf => absurd hf.1 h, fun _ => ⟨fault, rfl, hkind⟩⟩

theorem Reads.releasing {p : Parser α} {s : Progress} {fits : Prop} {a : α} {rest : List Token}
    {depth : Nat} (hp : Reads p s fits a rest depth) :
    Reads (releasing p) s fits a rest s.depth := by
  constructor
  · intro hfits
    obtain ⟨last, hrun⟩ := hp.ends hfits
    exact ⟨last, by simp [Parser.releasing, hrun]⟩
  · intro hfits
    obtain ⟨fault, hrun, hkind⟩ := hp.refused hfits
    exact ⟨fault, hrun, hkind⟩

end Parser

end MiniPascal
