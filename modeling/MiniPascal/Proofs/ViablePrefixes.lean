import MiniPascal.Proofs.ParserRuns

/-!
# Viable prefixes

What a parser has consumed when it is refused can still be completed: some terminals
behind it would have made a phrase, unless too many levels are nested.  A run that
starts behind the terminals `before` is `Viable` if it keeps that, and a parser that
does is said to parse the phrases that it accepts (`Parser.Parses`).  The rule of
every combinator moves `before` along, so that it has to be completed only where a
production ends or refuses a token.
-/

namespace MiniPascal

/-- Some terminals behind these make a phrase. -/
def Begins (L : List Terminal → Prop) (ts : List Terminal) : Prop :=
  ∃ us, L (ts ++ us)

/-- The terminals can be read as something. -/
def Spells {α : Type} (read : α → List Terminal → Prop) (ts : List Terminal) : Prop :=
  ∃ a, read a ts

variable {L M : List Terminal → Prop} {ts us before : List Terminal}

theorem Begins.of_append (h : Begins L (ts ++ us)) : Begins L ts := by
  obtain ⟨vs, hvs⟩ := h
  exact ⟨us ++ vs, by rwa [← List.append_assoc]⟩

theorem Begins.of_read {α : Type} {read : α → List Terminal → Prop} {a : α} (h : read a ts) :
    Begins (Spells read) ts :=
  ⟨[], a, by rwa [List.append_nil]⟩

namespace Parser

variable {α β : Type}

/-- Behind `before` the run from `s` consumes no more than can be completed, if it is refused for
another reason than depth. -/
structure Viable (p : Parser α) (L : List Terminal → Prop) (before : List Terminal)
    (s : Progress) : Prop where
  begins : Begins L before
  refused : ∀ m fault, p s = (.error fault, m) → fault.kind ≠ .nestingTooDeep →
    ∃ ts, s.Consumes m ts ∧ Begins L (before ++ ts)

/-- A success consumes a phrase that is `read` as the answer, and a refusal the beginning of one. -/
structure Parses (p : Parser α) (read : α → List Terminal → Prop) : Prop where
  sound : ∀ {s m : Progress} {a : α}, p s = (.ok a, m) → ∃ ts, s.Consumes m ts ∧ read a ts
  viable : ∀ s, p.Viable (Spells read) [] s

namespace Viable

variable {p : Parser α} {f : α → Parser β} {s : Progress} {t : Token}

/-- What consumes nothing is viable where something can still follow. -/
theorem of_unmoved (hbegins : Begins L before) (hrun : (p s).2 = s) : p.Viable L before s := by
  refine ⟨hbegins, fun m fault h _ => ?_⟩
  rw [h] at hrun
  exact ⟨[], hrun ▸ .refl s, by rwa [List.append_nil]⟩

theorem pure (hbegins : Begins L before) (a : α) : (pure a : Parser α).Viable L before s :=
  of_unmoved hbegins rfl

theorem refuse (hbegins : Begins L before) (kind : FaultKind) :
    (Parser.refuse kind t : Parser α).Viable L before s :=
  of_unmoved hbegins rfl

theorem refuseDepth (hbegins : Begins L before) :
    (Parser.refuseDepth : Parser α).Viable L before s :=
  of_unmoved hbegins rfl

theorem bind (hp : p.Viable L before s) (hf : ∀ a m, p s = (.ok a, m) →
    ∃ ts, s.Consumes m ts ∧ (f a).Viable L (before ++ ts) m) : (p >>= f).Viable L before s := by
  refine ⟨hp.begins, fun n fault h hkind => ?_⟩
  obtain hrun | ⟨a, m, hrun, hnext⟩ := bind_eq_error h
  · exact hp.refused n fault hrun hkind
  · obtain ⟨ts, htsConsumes, hviable⟩ := hf a m hrun
    obtain ⟨us, husConsumes, hbegins⟩ := hviable.refused n fault hnext hkind
    exact ⟨ts ++ us, htsConsumes.trans husConsumes, by rwa [← List.append_assoc]⟩

/-- As `bind`, when the first part only looks at the tokens to come. -/
theorem look (hbegins : Begins L before) (hrun : (p s).2 = s)
    (hf : ∀ a, p s = (.ok a, s) → (f a).Viable L before s) : (p >>= f).Viable L before s := by
  refine .bind (.of_unmoved hbegins hrun) fun a m h => ⟨[], ?_, ?_⟩ <;> rw [h] at hrun
  · exact hrun ▸ .refl s
  · subst hrun
    rw [List.append_nil]
    exact hf a h

/-- As `bind`, when the first part consumes one terminal. -/
theorem step {p : Parser Unit} {f : Unit → Parser β} {t : Terminal}
    (hp : s.Consumes (p s).2 [t]) (hf : ∀ m, (f ()).Viable L (before ++ [t]) m) :
    (p >>= f).Viable L before s := by
  have hbegins := (hf s).begins
  refine .bind ⟨hbegins.of_append, fun m fault h _ => ⟨[t], ?_, hbegins⟩⟩ fun _ m h =>
    ⟨[t], ?_, hf m⟩ <;> rwa [h] at hp

end Viable

theorem current_unmoved (kind : FaultKind) (s : Progress) : (current kind s).2 = s := by
  unfold current
  split <;> rfl

theorem expect_unmoved (accepts : Token → Bool) (kind : FaultKind) (s : Progress) :
    (expect accepts kind s).2 = s := by
  obtain ⟨_ | ⟨t, ts⟩, last, depth⟩ := s
  · rfl
  · show ((if accepts t = true then pure t else refuse kind t : Parser Token) _).2 = _
    split <;> rfl

theorem isNext_unmoved (accepts : Token → Bool) (s : Progress) : (isNext accepts s).2 = s := by
  rw [run_isNext]

theorem exists_of_isNext {accepts : Token → Bool} {s m : Progress}
    (h : isNext accepts s = (.ok true, m)) :
    ∃ t, s.rest.head? = some t ∧ accepts t = true := by
  rw [run_isNext] at h
  exact (Option.any_eq_true ..).1 (Except.ok.inj (Prod.mk.inj h).1)

theorem nextOperator_unmoved (accepts : BinaryOperator → Bool) (s : Progress) :
    (nextOperator accepts s).2 = s := by
  rw [run_nextOperator]

theorem consumes_advance {s : Progress} {t : Token} (hhead : s.rest.head? = some t) :
    s.Consumes (advance s).2 [t.terminal] := by
  obtain ⟨ts, hrest⟩ := List.head?_eq_some_iff.1 hhead
  refine .one ?_
  simp [advance, hrest]

/-- The token is consumed also where another one is missing behind it. -/
theorem consumes_advanceWithin (kind : FaultKind) {s : Progress} {t : Token}
    (hhead : s.rest.head? = some t) : s.Consumes (advanceWithin kind s).2 [t.terminal] := by
  obtain ⟨rest, last, depth⟩ := s
  obtain ⟨ts, rfl⟩ := List.head?_eq_some_iff.1 hhead
  cases ts <;> exact .one rfl

namespace Viable

variable {p : Parser α} {f : α → Parser β} {s : Progress}

/-- A token that has to be accepted is consumed, where one that is accepted can be completed. -/
theorem taking {consume : Parser Unit} {accepts : Token → Bool} {kind : FaultKind}
    {f : Token → Parser β}
    (hconsume : ∀ {s : Progress} {t : Token}, s.rest.head? = some t →
      s.Consumes (consume s).2 [t.terminal])
    (hsome : ∃ t, accepts t = true)
    (hf : ∀ t, accepts t = true → ∀ m, (f t).Viable L (before ++ [t.terminal]) m) :
    (do let t ← expect accepts kind; consume; f t).Viable L before s := by
  obtain ⟨u, hu⟩ := hsome
  refine .look (hf u hu s).begins.of_append (expect_unmoved ..) fun t h => ?_
  obtain ⟨-, hhead, haccepts⟩ := expect_eq_ok h
  exact .step (hconsume hhead) (hf t haccepts)

theorem take {accepts : Token → Bool} {kind : FaultKind} {f : Token → Parser β}
    (hsome : ∃ t, accepts t = true)
    (hf : ∀ t, accepts t = true → ∀ m, (f t).Viable L (before ++ [t.terminal]) m) :
    (do let t ← expect accepts kind; advance; f t).Viable L before s :=
  .taking consumes_advance hsome hf

theorem takeWithin {accepts : Token → Bool} {kind after : FaultKind} {f : Token → Parser β}
    (hsome : ∃ t, accepts t = true)
    (hf : ∀ t, accepts t = true → ∀ m, (f t).Viable L (before ++ [t.terminal]) m) :
    (do let t ← expect accepts kind; advanceWithin after; f t).Viable L before s :=
  .taking (consumes_advanceWithin after) hsome hf

/-- Taking a level changes no tokens, and is refused only for depth. -/
theorem descend {f : Unit → Parser β} (hf : ∀ m, m.rest = s.rest → (f ()).Viable L before m) :
    (Parser.descend >>= f).Viable L before s := by
  refine .bind ⟨(hf s rfl).begins, fun m fault h hkind => absurd (descend_eq_error h) hkind⟩
    fun _ m h => ⟨[], ⟨[], (descend_eq_ok h).symm, rfl⟩, ?_⟩
  rw [List.append_nil]
  exact hf m (descend_eq_ok h)

theorem nested (hp : ∀ m, p.Viable L before m) : (Parser.nested p).Viable L before s := by
  refine ⟨(hp s).begins, fun m fault h hkind => ?_⟩
  unfold Parser.nested at h
  split at h
  · next inner hdescend =>
      obtain ⟨hrun, rfl⟩ := Prod.mk.inj h
      obtain ⟨ts, hconsumes, hbegins⟩ := (hp inner).refused _ fault (Prod.ext hrun rfl) hkind
      exact ⟨ts, hconsumes.of_rest_eq (descend_eq_ok hdescend).symm rfl, hbegins⟩
  · next fault' m' hdescend =>
      obtain rfl := Except.error.inj (Prod.mk.inj h).1
      exact absurd (descend_eq_error hdescend) hkind

theorem releasing (hp : p.Viable L before s) : (Parser.releasing p).Viable L before s := by
  refine ⟨hp.begins, fun m fault h hkind => ?_⟩
  simp only [Parser.releasing, Prod.mk.injEq] at h
  obtain ⟨hrun, rfl⟩ := h
  obtain ⟨ts, hconsumes, hbegins⟩ := hp.refused _ fault (Prod.ext hrun rfl) hkind
  exact ⟨ts, hconsumes.of_rest_eq rfl rfl, hbegins⟩

/-- As `bind`, when only the answer is changed. -/
theorem answer (hp : p.Viable L before s) (g : α → β) :
    (do return g (← p) : Parser β).Viable L before s := by
  refine ⟨hp.begins, fun m fault h hkind => ?_⟩
  obtain hrun | ⟨a, n, -, hpure⟩ := bind_eq_error h
  · exact hp.refused m fault hrun hkind
  · simp at hpure

/-- A part of a phrase, if the phrase can go on behind it. -/
theorem extend (hp : p.Viable M [] s) (hM : ∀ ts, M ts → Begins L (before ++ ts)) :
    p.Viable L before s := by
  refine ⟨?_, fun m fault h hkind => ?_⟩
  · obtain ⟨us, hus⟩ := hp.begins
    exact (hM us hus).of_append
  · obtain ⟨ts, hconsumes, us, hus⟩ := hp.refused m fault h hkind
    refine ⟨ts, hconsumes, ?_⟩
    have hall : Begins L (before ++ ts ++ us) := by
      rw [List.append_assoc]
      exact hM (ts ++ us) hus
    exact hall.of_append

/-- Items may be repeated as long as `goes` can be kept up. -/
theorem many {more : Parser Bool} {item : Parser α} {goes : List Terminal → Prop}
    (hgoes : ∀ ts, goes ts → Begins L ts) (hmore : ∀ s, (more s).2 = s)
    (hitem : ∀ before s, goes before → more s = (.ok true, s) → item.Viable L before s ∧
      ∀ {m : Progress} {a : α}, item s = (.ok a, m) → ∃ ts, s.Consumes m ts ∧ goes (before ++ ts))
    (hbefore : goes before) : (Parser.many more item).Viable L before s := by
  have hupTo : ∀ n before s, goes before → (manyUpTo more item n).Viable L before s := by
    intro n
    induction n with
    | zero =>
        intro before s hbefore
        exact .look (hgoes before hbefore) (hmore s) fun _ _ => .pure (hgoes before hbefore) _
    | succ n ih =>
        intro before s hbefore
        refine .look (hgoes before hbefore) (hmore s) fun yes h => ?_
        cases yes with
        | false => exact .pure (hgoes before hbefore) _
        | true =>
            obtain ⟨hviable, hnext⟩ := hitem before s hbefore h
            refine .bind hviable fun a m hrun => ?_
            obtain ⟨ts, hconsumes, hgoes'⟩ := hnext hrun
            exact ⟨ts, hconsumes, (ih _ m hgoes').answer _⟩
  have hall := hupTo s.rest.length before s hbefore
  exact ⟨hall.begins, hall.refused⟩

/-- Items that begin with a certain token may be repeated as long as they can be read on. -/
theorem manyNext {accepts : Token → Bool} {item : Parser α} {read : β → List Terminal → Prop}
    (hitem : ∀ before b s t, read b before → s.rest.head? = some t → accepts t = true →
      item.Viable (Spells read) before s ∧ ∀ {m : Progress} {a : α}, item s = (.ok a, m) →
        ∃ ts b', s.Consumes m ts ∧ read b' (before ++ ts))
    {b : β} (hb : read b before) :
    (Parser.many (isNext accepts) item).Viable (Spells read) before s := by
  have hgoes : ∀ ts, Spells read ts → Begins (Spells read) ts := fun ts ⟨b, hb⟩ => .of_read hb
  refine many hgoes (isNext_unmoved accepts) (fun before s ⟨b, hb⟩ hmore => ?_) ⟨b, hb⟩
  obtain ⟨t, hhead, ht⟩ := exists_of_isNext hmore
  obtain ⟨hviable, hnext⟩ := hitem before b s t hb hhead ht
  refine ⟨hviable, fun h => ?_⟩
  obtain ⟨ts, b', hconsumes, hb'⟩ := hnext h
  exact ⟨ts, hconsumes, b', hb'⟩

end Viable

/-- What follows a phrase, if it is viable behind every one. -/
theorem Parses.bind {p : Parser α} {f : α → Parser β} {read : α → List Terminal → Prop}
    {s : Progress} (hp : p.Parses read)
    (hf : ∀ a ts, read a ts → ∀ m, (f a).Viable L (before ++ ts) m) :
    (p >>= f).Viable L before s := by
  have hviable : p.Viable L before s :=
    (hp.viable s).extend fun ts ⟨a, ha⟩ => (hf a ts ha s).begins
  refine .bind hviable fun a m h => ?_
  obtain ⟨ts, hconsumes, ha⟩ := hp.sound h
  exact ⟨ts, hconsumes, hf a ts ha m⟩

theorem exists_isSymbol (lexeme : String) : ∃ t : Token, t.isSymbol lexeme = true :=
  ⟨⟨.symbol, lexeme, 0, 0⟩, Token.isSymbol_iff.2 rfl⟩

theorem exists_isReservedWord (lexeme : String) : ∃ t : Token, t.isReservedWord lexeme = true :=
  ⟨⟨.reservedWord, lexeme, 0, 0⟩, Token.isReservedWord_iff.2 rfl⟩

theorem exists_isIdentifier : ∃ t : Token, isIdentifier t = true :=
  ⟨⟨.identifier, "x", 0, 0⟩, rfl⟩

end Parser

end MiniPascal
