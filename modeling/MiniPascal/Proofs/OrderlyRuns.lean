import MiniPascal.Proofs.StatementParsing

/-!
# Orderly runs

What every run of a parser keeps, whether it succeeds or is refused: it only moves
forward, it takes no more levels of nesting than there are, its answer depends on
no token behind the next one, and a fault points at the token to come or, at the end,
at the last one.  All of it is one record, `Parser.Orderly`, that is proved for every
combinator and from these for every production.
-/

namespace MiniPascal

/-- The fault is placed at the token, and quotes it if it quotes anything. -/
structure Fault.IsPlacedAt (fault : Fault) (t : Token) : Prop where
  line : fault.line = some t.line
  column : fault.column = some t.column
  quotes : ∀ lexeme, fault.lexeme = some lexeme → lexeme = t.lexeme

theorem Fault.isPlacedAt_atToken (kind : FaultKind) (t : Token) :
    (Fault.atToken kind t).IsPlacedAt t :=
  ⟨rfl, rfl, fun _ h => (Option.some.inj h).symm⟩

/-- The fault quotes the token to come and is placed there; at the end of the tokens it is placed at
the last one, if there is one. -/
def Fault.PointsInto (fault : Fault) (m : Progress) : Prop :=
  match m.rest, m.last with
  | t :: _, _ => fault = .atToken fault.kind t
  | [], some t => fault.IsPlacedAt t
  | [], none => fault = .unplaced fault.kind

theorem Fault.pointsInto_atToken (kind : FaultKind) {m : Progress} {t : Token}
    (hhead : m.rest.head? = some t) : (Fault.atToken kind t).PointsInto m := by
  obtain ⟨rest, hrest⟩ := List.head?_eq_some_iff.1 hhead
  simp only [PointsInto, hrest]
  rfl

/-- At the end the token that was consumed last may be quoted. -/
theorem Fault.pointsInto_atToken_last (kind : FaultKind) {m : Progress} {t : Token}
    (hrest : m.rest = []) (hlast : m.last = some t) : (Fault.atToken kind t).PointsInto m := by
  simp only [PointsInto, hrest, hlast]
  exact isPlacedAt_atToken kind t

theorem Progress.pointsInto_exhausted (kind : FaultKind) {m : Progress} (hrest : m.rest = []) :
    (m.exhausted kind).PointsInto m := by
  unfold Fault.PointsInto exhausted
  rw [hrest]
  cases m.last with
  | none => rfl
  | some t => exact ⟨rfl, rfl, by simp [Fault.placed]⟩

theorem Progress.exhausted_kind (kind : FaultKind) (m : Progress) :
    (m.exhausted kind).kind = kind := by
  unfold exhausted
  cases m.last <;> rfl

namespace Progress

/-- The same progress before other tokens. -/
def withRest (s : Progress) (rest : List Token) : Progress :=
  ⟨rest, s.last, s.depth⟩

/-- `m` is reached from `s` by consuming tokens and taking levels that there are.  Levels may still
be `held` in the end; otherwise those that were taken have been given back. -/
structure Reaches (held : Bool) (s m : Progress) : Prop where
  consumes : ∃ used, s.rest = used ++ m.rest ∧ m.last = used.getLast?.or s.last
  deepens : s.depth ≤ m.depth
  bounded : s.depth ≤ maxDepth → m.depth ≤ maxDepth
  returns : held = false → m.depth = s.depth

variable {held : Bool} {s m n : Progress}

/-- On the same level any tokens may have been consumed. -/
theorem Reaches.of_depth_eq (used : List Token) (hrest : s.rest = used ++ m.rest)
    (hlast : m.last = used.getLast?.or s.last) (hdepth : m.depth = s.depth) :
    s.Reaches held m :=
  ⟨⟨used, hrest, hlast⟩, Nat.le_of_eq hdepth.symm, fun h => hdepth ▸ h, fun _ => hdepth⟩

theorem Reaches.refl (s : Progress) : s.Reaches held s :=
  .of_depth_eq [] rfl rfl rfl

theorem Reaches.trans (h₁ : s.Reaches held m) (h₂ : m.Reaches held n) : s.Reaches held n := by
  obtain ⟨used₁, hs, hlast₁⟩ := h₁.consumes
  obtain ⟨used₂, hm, hlast₂⟩ := h₂.consumes
  refine ⟨⟨used₁ ++ used₂, ?_, ?_⟩, Nat.le_trans h₁.deepens h₂.deepens,
    fun h => h₂.bounded (h₁.bounded h), fun h => (h₂.returns h).trans (h₁.returns h)⟩
  · rw [hs, hm, List.append_assoc]
  · rw [hlast₂, hlast₁, List.getLast?_append, Option.or_assoc]

/-- Levels may be held even if none are. -/
theorem Reaches.keeping (h : s.Reaches held m) : s.Reaches true m :=
  ⟨h.consumes, h.deepens, h.bounded, by simp⟩

/-- Giving back the levels that were taken keeps the tokens. -/
theorem Reaches.released {held' : Bool} (h : s.Reaches held m) :
    s.Reaches held' ⟨m.rest, m.last, s.depth⟩ := by
  obtain ⟨used, hrest, hlast⟩ := h.consumes
  exact .of_depth_eq used hrest hlast rfl

theorem Reaches.length_le (h : s.Reaches held m) : m.rest.length ≤ s.rest.length := by
  obtain ⟨used, hrest, -⟩ := h.consumes
  rw [hrest, List.length_append]
  exact Nat.le_add_left ..

end Progress

namespace Parser

variable {α β : Type} {held : Bool}

/-- The run from `s` moves forward, looks no further than the token to come, and a fault points into
what it reaches.  No run goes on behind the end of the tokens. -/
structure Orderly (held : Bool) (p : Parser α) (s : Progress) : Prop where
  reaches : s.Reaches held (p s).2
  lookahead : ∀ {used : List Token} {t : Token} {rest : List Token}, s.rest = used ++ t :: rest →
    (p s).2.rest = t :: rest → ∀ rest', p (s.withRest (used ++ t :: rest')) =
      ((p s).1, (p s).2.withRest (t :: rest'))
  faults : ∀ fault, (p s).1 = .error fault →
    fault.kind ≠ .noTokensToParse ∧ fault.PointsInto (p s).2

namespace Orderly

variable {p : Parser α} {f : α → Parser β} {s : Progress}

/-- What is decided by the token to come stays the same before other tokens behind it. -/
theorem of_unmoved {answer : Except Fault α} (hrun : p s = (answer, s))
    (hahead : ∀ t rest, s.rest = t :: rest → ∀ rest', p (s.withRest (t :: rest')) =
      (answer, s.withRest (t :: rest')))
    (hfaults : ∀ fault, answer = .error fault →
      fault.kind ≠ .noTokensToParse ∧ fault.PointsInto s) : p.Orderly held s := by
  refine ⟨?_, ?_, ?_⟩ <;> rw [hrun]
  · exact .refl s
  · intro used t rest hs hrest rest'
    obtain rfl : used = [] := by simpa using hs.symm.trans hrest
    exact hahead t rest hrest rest'
  · exact hfaults

theorem pure (a : α) : (pure a : Parser α).Orderly held s :=
  .of_unmoved rfl (fun _ _ _ _ => rfl) (by simp)

theorem refuse {kind : FaultKind} {t : Token} (hkind : kind ≠ .noTokensToParse)
    (hpoints : (Fault.atToken kind t).PointsInto s) :
    (Parser.refuse kind t : Parser α).Orderly held s :=
  .of_unmoved rfl (fun _ _ _ _ => rfl) fun _ h => by
    obtain rfl := Except.error.inj h
    exact ⟨hkind, hpoints⟩

theorem refuseDepth : (Parser.refuseDepth : Parser α).Orderly held s := by
  refine .of_unmoved rfl (fun t rest hrest rest' => ?_) fun fault h => ?_
  · simp [Parser.refuseDepth, Progress.tooDeep, Progress.withRest, hrest]
  · obtain rfl := Except.error.inj h
    unfold Progress.tooDeep
    split
    · next t ts hrest => exact ⟨FaultKind.noConfusion, Fault.pointsInto_atToken _ (by simp [hrest])⟩
    · next hrest =>
        exact ⟨by simp [Progress.exhausted_kind], Progress.pointsInto_exhausted _ hrest⟩

theorem peek : Parser.peek.Orderly held s :=
  .of_unmoved rfl (fun t rest hrest rest' => by simp [Parser.peek, Progress.withRest, hrest])
    (by simp)

theorem current {kind : FaultKind} (hkind : kind ≠ .noTokensToParse) :
    (Parser.current kind).Orderly held s := by
  cases hrest : s.rest with
  | cons t rest =>
      have hrun : Parser.current kind s = (.ok t, s) := by simp [Parser.current, hrest]
      refine .of_unmoved hrun ?_ (by simp)
      intro t' rest' hrest' rest''
      obtain rfl : t = t' := (List.cons.inj (hrest.symm.trans hrest')).1
      simp [Parser.current, Progress.withRest]
  | nil =>
      have hrun : Parser.current kind s = (.error (s.exhausted kind), s) := by
        simp [Parser.current, hrest]
      refine .of_unmoved hrun (by simp [hrest]) fun fault h => ?_
      obtain rfl := Except.error.inj h
      exact ⟨by rwa [Progress.exhausted_kind], Progress.pointsInto_exhausted kind hrest⟩

/-- Other tokens behind the one that comes next change nothing, however much is looked at later. -/
theorem run_withRest (h : p.Orderly held s) {used ahead rest : List Token} {t : Token}
    (hs : s.rest = used ++ (ahead ++ t :: rest)) (hrest : (p s).2.rest = ahead ++ t :: rest)
    (rest' : List Token) :
    p (s.withRest (used ++ (ahead ++ t :: rest'))) =
      ((p s).1, (p s).2.withRest (ahead ++ t :: rest')) := by
  cases ahead with
  | nil => exact h.lookahead hs hrest rest'
  | cons u ahead => exact h.lookahead hs hrest (ahead ++ t :: rest')

/-- A sequence is orderly if its first part is, and what goes on where that succeeds. -/
theorem bind (hp : p.Orderly held s)
    (hf : ∀ a m, p s = (.ok a, m) → (f a).Orderly held m) : (p >>= f).Orderly held s := by
  cases hrun : p s with
  | mk answer m =>
  have hreaches : s.Reaches held m := by simpa [hrun] using hp.reaches
  cases answer with
  | error fault =>
      have hbind : (p >>= f) s = (.error fault, m) := run_bind_of_error hrun
      refine ⟨by rwa [hbind], ?_, ?_⟩ <;> rw [hbind]
      · intro used t rest hs hrest rest'
        have hrun' := hp.lookahead hs (by rwa [hrun]) rest'
        rw [hrun] at hrun'
        exact run_bind_of_error hrun'
      · intro fault' h
        obtain rfl := Except.error.inj h
        simpa [hrun] using hp.faults fault (by rw [hrun])
  | ok a =>
      have hbind : (p >>= f) s = f a m := run_bind_of_ok hrun
      have hnext := hf a m hrun
      refine ⟨by rw [hbind]; exact hreaches.trans hnext.reaches, ?_, by
        rw [hbind]; exact hnext.faults⟩
      intro used t rest hs hrest rest'
      rw [hbind] at hrest ⊢
      -- the tokens that the first part consumed come before those of the second one
      obtain ⟨used₁, hs₁, -⟩ := hreaches.consumes
      obtain ⟨used₂, hm, -⟩ := hnext.reaches.consumes
      rw [hrest] at hm
      obtain rfl : used = used₁ ++ used₂ := by
        rw [hs, hm, ← List.append_assoc] at hs₁
        exact List.append_cancel_right hs₁
      have hrun' := hp.run_withRest (hs.trans (List.append_assoc ..)) (by rw [hrun, hm]) rest'
      rw [hrun] at hrun'
      rw [List.append_assoc, run_bind_of_ok hrun']
      exact hnext.lookahead hm hrest rest'

/-- As `bind`, when only the answer is changed. -/
theorem answer (hp : p.Orderly held s) (g : α → β) :
    (do return g (← p) : Parser β).Orderly held s :=
  .bind hp fun a _ _ => .pure (g a)

theorem expect {accepts : Token → Bool} {kind : FaultKind} (hkind : kind ≠ .noTokensToParse) :
    (Parser.expect accepts kind).Orderly held s := by
  refine .bind (.current hkind) fun t m h => ?_
  obtain ⟨rfl, hhead⟩ := current_eq_ok h
  split
  · exact .pure t
  · exact .refuse hkind (Fault.pointsInto_atToken kind hhead)

/-- A token may be consumed where there is one. -/
theorem advance {t : Token} (hhead : s.rest.head? = some t) : Parser.advance.Orderly held s := by
  obtain ⟨ts, hrest⟩ := List.head?_eq_some_iff.1 hhead
  have hrun : Parser.advance s = (.ok (), ⟨ts, some t, s.depth⟩) := by
    simp [Parser.advance, hrest]
  refine ⟨?_, ?_, ?_⟩ <;> rw [hrun]
  · exact .of_depth_eq [t] hrest rfl rfl
  · rintro used u rest hs rfl rest'
    obtain rfl : used = [t] := by
      rw [hrest] at hs
      have hsame : used ++ u :: rest = [t] ++ u :: rest := hs.symm
      exact List.append_cancel_right hsame
    simp [Parser.advance, Progress.withRest]
  · simp

theorem advanceWithin {kind : FaultKind} (hkind : kind ≠ .noTokensToParse) :
    (Parser.advanceWithin kind).Orderly held s := by
  refine .bind (.current hkind) fun t m h => ?_
  obtain ⟨rfl, hhead⟩ := current_eq_ok h
  obtain ⟨ts, hrest⟩ := List.head?_eq_some_iff.1 hhead
  refine .bind (.advance hhead) fun _ m' h' => .bind .peek fun following m'' h'' => ?_
  obtain ⟨hfollowing, rfl⟩ := Prod.mk.inj h''
  obtain rfl : (⟨ts, some t, m.depth⟩ : Progress) = m' := by
    simpa [Parser.advance, hrest] using h'
  split
  · exact .pure ()
  · exact .refuse hkind (Fault.pointsInto_atToken_last kind (by simpa using hfollowing) rfl)

/-- A token that has to be accepted may be consumed. -/
theorem take {accepts : Token → Bool} {kind : FaultKind} {f : Token → Parser β}
    (hkind : kind ≠ .noTokensToParse) (hf : ∀ t m, (f t).Orderly held m) :
    (do let t ← Parser.expect accepts kind; Parser.advance; f t).Orderly held s := by
  refine .bind (.expect hkind) fun t m h => ?_
  obtain ⟨rfl, hhead, -⟩ := expect_eq_ok h
  exact .bind (.advance hhead) fun _ m' _ => hf t m'

theorem takeWithin {accepts : Token → Bool} {kind after : FaultKind} {f : Token → Parser β}
    (hkind : kind ≠ .noTokensToParse) (hafter : after ≠ .noTokensToParse)
    (hf : ∀ t m, (f t).Orderly held m) :
    (do let t ← Parser.expect accepts kind; Parser.advanceWithin after; f t).Orderly held s :=
  .bind (.expect hkind) fun t _ _ => .bind (.advanceWithin hafter) fun _ m' _ => hf t m'

theorem isNext {accepts : Token → Bool} : (Parser.isNext accepts).Orderly held s :=
  .bind .peek fun following _ _ => by cases following <;> exact .pure _

theorem nextOperator {accepts : BinaryOperator → Bool} :
    (Parser.nextOperator accepts).Orderly held s := by
  refine .bind .peek fun following m _ => ?_
  cases following with
  | none => exact .pure none
  | some t =>
      dsimp only
      split <;> exact .pure _

/-! ### Levels of nesting -/

theorem of_refuseDepth (hrun : ∀ rest, p (s.withRest rest) = Parser.refuseDepth (s.withRest rest)) :
    p.Orderly held s := by
  have hs : p s = Parser.refuseDepth s := hrun s.rest
  have hrefused : (Parser.refuseDepth : Parser α).Orderly held s := .refuseDepth
  refine ⟨?_, fun hused hrest rest' => ?_, ?_⟩
  · rw [hs]
    exact hrefused.reaches
  · rw [hrun, hs]
    rw [hs] at hrest
    exact hrefused.lookahead hused hrest rest'
  · rw [hs]
    exact hrefused.faults

theorem descend : Parser.descend.Orderly true s := by
  by_cases h : s.depth < maxDepth
  · have hrun := run_descend h
    refine ⟨?_, ?_, ?_⟩ <;> rw [hrun]
    · exact ⟨⟨[], rfl, rfl⟩, Nat.le_succ _, fun _ => h, by simp⟩
    · intro used t rest hs hrest rest'
      obtain rfl : used = [] := by simpa using hs.symm.trans hrest
      exact run_descend (s := s.withRest (t :: rest')) h
    · simp
  · exact .of_refuseDepth fun rest => if_neg h

theorem releasing (hp : p.Orderly held s) {held' : Bool} :
    (Parser.releasing p).Orderly held' s := by
  refine ⟨hp.reaches.released, fun hs hrest rest' => ?_, hp.faults⟩
  have hrun := hp.lookahead hs hrest rest'
  simp only [Parser.releasing, hrun]
  rfl

/-- The level that is given back in the end is still taken then. -/
theorem nested (hp : ∀ m, p.Orderly false m) : (Parser.nested p).Orderly held s := by
  by_cases h : s.depth < maxDepth
  · have hrun : ∀ rest, Parser.nested p (s.withRest rest) =
        Parser.releasing (fun _ => p ⟨rest, s.last, s.depth + 1⟩) s := by
      intro rest
      have hreturns := (hp ⟨rest, s.last, s.depth + 1⟩).reaches.returns rfl
      have hdescend := run_descend (s := s.withRest rest) h
      simp only [Progress.withRest] at hdescend ⊢
      simp only [Parser.nested, Parser.releasing, hdescend, hreturns, Nat.add_sub_cancel]
    have hinner := hp ⟨s.rest, s.last, s.depth + 1⟩
    obtain ⟨used, hconsumes, hlast⟩ := hinner.reaches.consumes
    refine ⟨?_, fun hs hrest rest' => ?_, ?_⟩
    · rw [show Parser.nested p s = _ from hrun s.rest]
      exact .of_depth_eq used hconsumes hlast rfl
    · rw [show Parser.nested p s = _ from hrun s.rest] at hrest ⊢
      have hrun' := hinner.lookahead hs hrest rest'
      simp only [Progress.withRest] at hrun'
      rw [hrun]
      simp only [Parser.releasing, hrun']
      rfl
    · rw [show Parser.nested p s = _ from hrun s.rest]
      exact hinner.faults
  · refine .of_refuseDepth fun rest => ?_
    have hdescend : Parser.descend (s.withRest rest) = Parser.refuseDepth (s.withRest rest) :=
      if_neg h
    simp only [Parser.nested, hdescend, Parser.refuseDepth]

/-! ### Repetition -/

theorem manyUpTo {more : Parser Bool} {item : Parser α} (hmore : ∀ m, more.Orderly held m)
    (hitem : ∀ m, item.Orderly held m) (n : Nat) :
    (Parser.manyUpTo more item n).Orderly held s := by
  induction n generalizing s with
  | zero => exact .bind (hmore s) fun _ _ _ => .pure []
  | succ n ih =>
      refine .bind (hmore s) fun more m _ => ?_
      split
      · exact .bind (hitem m) fun a _ _ => .bind ih fun as _ _ => .pure (a :: as)
      · exact .pure []

end Orderly

/-- The test before an item of a repetition consumes nothing, and says no at the end of the
tokens. -/
def Tests (more : Parser Bool) : Prop :=
  ∀ ⦃s m : Progress⦄ ⦃yes : Bool⦄, more s = (.ok yes, m) → m = s ∧ (s.rest = [] → yes = false)

/-- A success consumes a token. -/
def Shortens (p : Parser α) : Prop :=
  ∀ ⦃s m : Progress⦄ ⦃a : α⦄, p s = (.ok a, m) → m.rest.length < s.rest.length

theorem Shortens.answer {p : Parser α} (hp : p.Shortens) (g : α → β) :
    (do return g (← p) : Parser β).Shortens := by
  intro s m b h
  obtain ⟨a, m', hrun, hpure⟩ := bind_eq_ok h
  obtain ⟨-, rfl⟩ := pure_eq_ok hpure
  exact hp hrun

theorem Shortens.length_lt {p : Parser α} (hp : p.Shortens) {s : Progress}
    (hok : (p s).1.isOk = true) : (p s).2.rest.length < s.rest.length := by
  cases hrun : p s with
  | mk answer m =>
  cases answer with
  | error fault => simp [hrun, Except.isOk, Except.toBool] at hok
  | ok a => exact hp hrun

/-- A success that consumes certain terminals consumes a token if there is one of them. -/
theorem shortens_of_consumes {p : Parser α}
    (hp : ∀ {s m : Progress} {a : α}, p s = (.ok a, m) → ∃ ts, s.Consumes m ts ∧ ts ≠ []) :
    p.Shortens := by
  intro s m a h
  obtain ⟨ts, hconsumes, hne⟩ := hp h
  exact hconsumes.length_lt hne

theorem manyUpTo_of_rest_nil {more : Parser Bool} (hmore : more.Tests) (item : Parser α)
    {s : Progress} (hrest : s.rest = []) (n : Nat) :
    manyUpTo more item n s = manyUpTo more item 0 s := by
  cases n with
  | zero => rfl
  | succ n =>
      rw [manyUpTo, manyUpTo, run_bind, run_bind]
      split
      · next yes m hrun =>
          obtain ⟨-, hno⟩ := hmore hrun
          simp [hno hrest]
      · rfl

/-- How often an item may be repeated does not matter as long as there may be one for every
token. -/
theorem manyUpTo_eq_of_length_le {more : Parser Bool} {item : Parser α} (hmore : more.Tests)
    (hitem : item.Shortens) {s : Progress} {n n' : Nat} (hn : s.rest.length ≤ n)
    (hn' : s.rest.length ≤ n') : manyUpTo more item n s = manyUpTo more item n' s := by
  induction n generalizing s n' with
  | zero =>
      have hrest : s.rest = [] := List.length_eq_zero_iff.1 (Nat.le_zero.1 hn)
      exact (manyUpTo_of_rest_nil hmore item hrest n').symm
  | succ n ih =>
      cases n' with
      | zero =>
          have hrest : s.rest = [] := List.length_eq_zero_iff.1 (Nat.le_zero.1 hn')
          exact manyUpTo_of_rest_nil hmore item hrest (n + 1)
      | succ n' =>
          rw [manyUpTo, manyUpTo, run_bind, run_bind]
          split
          · next yes m hrun =>
              obtain ⟨rfl, -⟩ := hmore hrun
              split
              · rw [run_bind, run_bind]
                split
                · next a m' hrun' =>
                    have hshorter := hitem hrun'
                    have hsame : manyUpTo more item n m' = manyUpTo more item n' m' :=
                      ih (by omega) (by omega)
                    rw [run_bind, run_bind, hsame]
                · rfl
              · rfl
          · rfl

theorem Orderly.many {more : Parser Bool} {item : Parser α} (htests : more.Tests)
    (hshortens : item.Shortens) (hmore : ∀ m, more.Orderly held m)
    (hitem : ∀ m, item.Orderly held m) {s : Progress} :
    (Parser.many more item).Orderly held s := by
  have hmany : ∀ n, (Parser.manyUpTo more item n).Orderly held s :=
    fun n => .manyUpTo hmore hitem n
  refine ⟨(hmany _).reaches, fun {used t rest} hs hrest rest' => ?_, (hmany _).faults⟩
  -- the tokens behind the next one only change how many items there may be
  let n := s.rest.length + (used ++ t :: rest').length
  have hn : Parser.many more item s = Parser.manyUpTo more item n s :=
    manyUpTo_eq_of_length_le htests hshortens (Nat.le_refl _) (Nat.le_add_right ..)
  have hn' : Parser.many more item (s.withRest (used ++ t :: rest')) =
      Parser.manyUpTo more item n (s.withRest (used ++ t :: rest')) :=
    manyUpTo_eq_of_length_le htests hshortens (Nat.le_refl _) (Nat.le_add_left ..)
  rw [hn] at hrest ⊢
  rw [hn', (hmany n).lookahead hs hrest rest']

end Parser

end MiniPascal
