import MiniPascal.Proofs.NestingBound

/-!
# Lists of statements

Statements give back every level of nesting that they take, so what can stand between
`begin` and `end` can stand there behind anything else that can, as long as it does not
begin with declarations, which the statement in front could take.
-/

namespace MiniPascal

/-- The tokens are a program of this name, with nothing but `body` between its `begin` and its
`end`. -/
def IsProgramAround (name : String) (body ts : List Token) : Prop :=
  ts.map Token.terminal = .word "program" :: .name name :: .symbol ";" :: .word "begin" ::
    (body.map Token.terminal ++ [.word "end", .symbol "."])

/-- The token in front is the reserved word `var`. -/
def startsWithVar (body : List Token) : Bool :=
  body.head?.any (·.isReservedWord "var")

/-- The tokens derive these statements as they are read, within the levels that there are. -/
structure IsBody (body : List Token) (ss : List Statement) : Prop where
  derives : ∃ ns, Statement.DerivesAll ss (body.map Token.terminal) ns ∧ ∀ n ∈ ns, n ≤ maxDepth
  unambiguous : Statement.areUnambiguous ss = true

/-- No statement of one list takes a part of a statement behind it. -/
theorem Statement.areUnambiguous_append {ss ss' : List Statement}
    (h : areUnambiguous ss = true) (h' : areUnambiguous ss' = true)
    (hstarts : startsWithDeclarations ss' = false) : areUnambiguous (ss ++ ss') = true := by
  induction ss with
  | nil => exact h'
  | cons s ss ih =>
      obtain ⟨hfirst, hothers⟩ := Bool.and_eq_true_iff.1 h
      have happart : startsWithDeclarations (ss ++ ss') = startsWithDeclarations ss := by
        cases ss with
        | nil => exact hstarts
        | cons t ss =>
            rw [List.cons_append, startsWithDeclarations_cons, ← startsWithDeclarations_cons t ss]
      rw [List.cons_append, areUnambiguous, happart]
      exact Bool.and_eq_true_iff.2 ⟨hfirst, ih hothers⟩

namespace IsBody

variable {first second : List Token} {ss ss' : List Statement}

theorem nil : IsBody [] [] :=
  ⟨⟨[], .nil, by simp⟩, rfl⟩

/-- Statements that are derived from tokens begin with declarations only if the tokens do. -/
theorem startsWithDeclarations_eq_false (h : IsBody second ss')
    (hvar : startsWithVar second = false) : Statement.startsWithDeclarations ss' = false := by
  obtain ⟨ns, hderives, -⟩ := h.derives
  cases hstarts : Statement.startsWithDeclarations ss' with
  | false => rfl
  | true =>
      have hconsumes : (Progress.start second).Consumes (Progress.start [])
          (second.map Token.terminal) := ⟨second, (List.append_nil second).symm, rfl⟩
      have hhead := Parser.startsWithDeclarations_of_consumes hconsumes hderives hstarts
      exact absurd hhead (by simpa [startsWithVar, Progress.start] using hvar)

/-- Behind one body another one may follow.  Each level that the first one takes is given back. -/
theorem append (h : IsBody first ss) (h' : IsBody second ss')
    (hvar : startsWithVar second = false) : IsBody (first ++ second) (ss ++ ss') := by
  obtain ⟨ns, hderives, hfits⟩ := h.derives
  obtain ⟨ms, hderives', hfits'⟩ := h'.derives
  refine ⟨⟨ns ++ ms, ?_, ?_⟩, Statement.areUnambiguous_append h.unambiguous h'.unambiguous
    (h'.startsWithDeclarations_eq_false hvar)⟩
  · rw [List.map_append]
    exact hderives.append hderives'
  · intro n hn
    rcases List.mem_append.1 hn with hn | hn
    · exact hfits n hn
    · exact hfits' n hn

end IsBody

theorem startsWithVar_flatMap {α : Type} {parts : List α} {tokens : α → List Token}
    (h : ∀ part ∈ parts, startsWithVar (tokens part) = false) :
    startsWithVar (parts.flatMap tokens) = false := by
  induction parts with
  | nil => rfl
  | cons part parts ih =>
      have hpart := h part (by simp)
      rw [List.flatMap_cons]
      cases htokens : tokens part with
      | nil => exact ih fun part hmem => h part (by simp [hmem])
      | cons t ts => simpa [startsWithVar, htokens] using hpart

/-- Any number of bodies may follow one another. -/
theorem isBody_flatMap {α : Type} {parts : List α} {tokens : α → List Token}
    {statements : α → List Statement} (h : ∀ part ∈ parts, IsBody (tokens part) (statements part))
    (hvar : ∀ part ∈ parts.tail, startsWithVar (tokens part) = false) :
    IsBody (parts.flatMap tokens) (parts.flatMap statements) := by
  induction parts with
  | nil => exact .nil
  | cons part parts ih =>
      have hothers := ih (fun other hmem => h other (by simp [hmem]))
        fun other hmem => hvar other (List.mem_of_mem_tail hmem)
      rw [List.flatMap_cons, List.flatMap_cons]
      exact (h part (by simp)).append hothers (startsWithVar_flatMap hvar)

/-- What is accepted around a body is a program without declarations, with the statements of the
body. -/
theorem parseTokens_around_iff {name : String} {body ts : List Token} {p : Program}
    (h : IsProgramAround name body ts) :
    parseTokens ts = .ok p ↔ ∃ ss, IsBody body ss ∧ p = ⟨name, ⟨[], ss⟩⟩ := by
  constructor
  · intro hp
    obtain ⟨hunambiguous, ns, ⟨-, us, hbody, hts⟩, hfits⟩ := exists_derives_of_parseTokens hp
    obtain ⟨name', ⟨ds, ss⟩⟩ := p
    rw [h] at hts
    simp only [List.cons.injEq, true_and] at hts
    obtain ⟨hname, hblock⟩ := hts
    obtain rfl : name = name' := congrArg Terminal.lexeme hname
    cases ds with
    | cons d ds =>
        -- the first declaration would begin with `var`
        have hhead := congrArg List.head? hblock
        simp [Declaration.terminalsAll, Terminal.word] at hhead
    | nil =>
        obtain rfl : body.map Token.terminal = us := by
          simpa [Declaration.terminalsAll] using hblock
        exact ⟨ss, ⟨⟨ns, hbody, hfits⟩, hunambiguous⟩, rfl⟩
  · rintro ⟨ss, ⟨⟨ns, hbody, hfits⟩, hunambiguous⟩, rfl⟩
    refine parseTokens_of_derives ⟨?_, _, hbody, ?_⟩ hunambiguous hfits
    · intro d hd
      exact absurd hd List.not_mem_nil
    · rw [h]
      rfl

/-- What stands between the `begin` and the `end` of an accepted program is a body. -/
theorem isBody_of_parseTokens {name : String} {body ts : List Token} {p : Program}
    (h : IsProgramAround name body ts) (hp : parseTokens ts = .ok p) :
    IsBody body p.block.body := by
  obtain ⟨ss, hbody, rfl⟩ := (parseTokens_around_iff h).1 hp
  exact hbody

/-- **Lists of statements compose.**  If two programs are accepted that consist of their statements
only, and those of the second one do not begin with `var`, then the program with the tokens of the
first body in front of those of the second is accepted, and its statements are those of the first
one followed by those of the second.  So it is for any number of bodies: however many statements
stand in a row, and however deeply each of them is nested, the levels suffice. -/
theorem parseTokens_bodies_append (name : String) :
    (∀ {first second ts us vs : List Token} {p q : Program},
      IsProgramAround name first ts → parseTokens ts = .ok p →
      IsProgramAround name second us → parseTokens us = .ok q → startsWithVar second = false →
      IsProgramAround name (first ++ second) vs →
      parseTokens vs = .ok ⟨name, ⟨[], p.block.body ++ q.block.body⟩⟩) ∧
    ∀ parts : List (List Token × Program),
      (∀ part ∈ parts, ∃ ts, IsProgramAround name part.1 ts ∧ parseTokens ts = .ok part.2) →
      (∀ part ∈ parts.tail, startsWithVar part.1 = false) →
      ∀ vs, IsProgramAround name (parts.flatMap fun part => part.1) vs →
        parseTokens vs = .ok ⟨name, ⟨[], parts.flatMap fun part => part.2.block.body⟩⟩ := by
  constructor
  · intro first second ts us vs p q hts hp hus hq hvar hvs
    have hbody := (isBody_of_parseTokens hts hp).append (isBody_of_parseTokens hus hq) hvar
    exact (parseTokens_around_iff hvs).2 ⟨_, hbody, rfl⟩
  · intro parts hparts hvar vs hvs
    have hbodies : ∀ part ∈ parts, IsBody part.1 part.2.block.body := by
      intro part hpart
      obtain ⟨ts, hts, hp⟩ := hparts part hpart
      exact isBody_of_parseTokens hts hp
    exact (parseTokens_around_iff hvs).2 ⟨_, isBody_flatMap hbodies hvar, rfl⟩

/-! ### Statements on the last level -/

/-- The tokens of a program around a body, all at one place. -/
def programAround (name : String) (body : List Token) : List Token :=
  ⟨.reservedWord, "program", 1, 1⟩ :: ⟨.identifier, name, 1, 1⟩ :: ⟨.symbol, ";", 1, 1⟩ ::
    ⟨.reservedWord, "begin", 1, 1⟩ :: (body ++ [⟨.reservedWord, "end", 1, 1⟩, ⟨.symbol, ".", 1, 1⟩])

theorem isProgramAround_programAround (name : String) (body : List Token) :
    IsProgramAround name body (programAround name body) := by
  simp [IsProgramAround, programAround, Token.terminal, Terminal.word, Terminal.name,
    Terminal.symbol]

/-- The assignment of a spiral that takes every level. -/
def deepestBody : List Token :=
  (.name "x" :: .becomes :: (spiralTerminals 126 ++ [.symbol ";"])).map fun t =>
    ⟨t.category, t.lexeme, 1, 1⟩

/-- Statements that take every level may be repeated a thousand times. -/
theorem parseTokens_bodies_append_deepest :
    parseTokens (programAround "P" deepestBody) = .ok (spiralProgram 126) ∧
      startsWithVar deepestBody = false ∧
      parseTokens (programAround "P" (deepestBody ++ deepestBody)) =
        .ok ⟨"P", ⟨[], [.assign "x" (spiral 126), .assign "x" (spiral 126)]⟩⟩ ∧
      parseTokens (programAround "P" (List.replicate 1000 deepestBody).flatten) =
        .ok ⟨"P", ⟨[], List.replicate 1000 (.assign "x" (spiral 126))⟩⟩ := by
  have haround := isProgramAround_programAround "P" deepestBody
  have htokens : programAround "P" deepestBody = spiralTokens 126 := by
    simp [programAround, deepestBody, spiralTokens, spiralProgramTerminals, Terminal.word,
      Terminal.name, Terminal.symbol]
  have haccepted : parseTokens (programAround "P" deepestBody) = .ok (spiralProgram 126) :=
    htokens ▸ parseTokens_spiralTokens (by decide)
  have hvar : startsWithVar deepestBody = false := rfl
  obtain ⟨happend, hrepeat⟩ := parseTokens_bodies_append "P"
  have htwice := happend haround haccepted haround haccepted hvar
    (isProgramAround_programAround "P" _)
  refine ⟨haccepted, hvar, htwice, ?_⟩
  have hpart : ∀ part ∈ List.replicate 1000 (deepestBody, spiralProgram 126),
      part = (deepestBody, spiralProgram 126) := fun _ => List.eq_of_mem_replicate
  have hrun := hrepeat (List.replicate 1000 (deepestBody, spiralProgram 126))
    (fun part hmem => hpart part hmem ▸ ⟨_, haround, haccepted⟩)
    (fun part hmem => hpart part (List.mem_of_mem_tail hmem) ▸ hvar)
    (programAround "P" (List.replicate 1000 deepestBody).flatten)
    (by rw [List.flatMap_replicate]; exact isProgramAround_programAround "P" _)
  rwa [List.flatMap_replicate, show (spiralProgram 126).block.body = [.assign "x" (spiral 126)]
    from rfl, List.flatten_replicate_singleton] at hrun

end MiniPascal
