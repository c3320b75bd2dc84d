import MiniPascal.Proofs.ProductionRuns
import MiniPascal.Proofs.Resolution
import MiniPascal.Proofs.ViableProductions

/-!
# Faults point at the first token that cannot go on

The tokens before the one that a fault quotes are the beginning of a program, and no
program begins with that one as well (`parseTokens_fault_isFirst`).  The first part is
that productions consume viable prefixes.  For the second one the tokens behind the
quoted one are replaced by some that complete a program: the parser looks no further,
so it refuses the completed tokens too, although it reads every derivation unless too
many levels are nested.
-/

namespace MiniPascal

/-- Some program is derived by these terminals, whatever levels the derivation reaches. -/
def IsDerivable (ts : List Terminal) : Prop :=
  ∃ (p : Program) (ns : List Nat), p.Derives ts ns

namespace Parser

/-- Tokens that derive a program are refused only for depth. -/
theorem kind_eq_of_isDerivable {ts : List Token} (h : IsDerivable (ts.map Token.terminal))
    {fault : Fault} (hrun : (program (Progress.start ts)).1 = .error fault) :
    fault.kind = .nestingTooDeep := by
  obtain ⟨p, ns, hp⟩ := h
  obtain ⟨p', ns', hderives, hunambiguous⟩ := hp.exists_unambiguous
  have hreads := reads_program hderives hunambiguous
  by_cases hfits : ∀ n ∈ ns', n ≤ maxDepth
  · obtain ⟨last, hok⟩ := hreads.ends hfits
    simp [hok] at hrun
  · obtain ⟨fault', hrun', hkind⟩ := hreads.refused hfits
    obtain rfl := Except.error.inj (hrun.symm.trans hrun')
    exact hkind

/-- Nothing derivable begins with the token at which the parser refused to go on. -/
theorem not_begins_of_refused {used rest : List Token} {t : Token} {fault : Fault}
    (hrun : (program (Progress.start (used ++ t :: rest))).1 = .error fault)
    (hrest : (program (Progress.start (used ++ t :: rest))).2.rest = t :: rest)
    (hkind : fault.kind ≠ .nestingTooDeep) :
    ¬Begins IsDerivable ((used ++ [t]).map Token.terminal) := by
  rintro ⟨vs, hderivable⟩
  -- the completion as tokens, whose places do not matter
  let others : List Token := vs.map fun v => ⟨v.category, v.lexeme, 0, 0⟩
  have hothers : others.map Token.terminal = vs := by
    simp [others, Token.terminal, Function.comp_def]
  have hcompleted : IsDerivable ((used ++ t :: others).map Token.terminal) := by
    simpa [hothers] using hderivable
  have hsame := (program_orderly (Progress.start (used ++ t :: rest))).lookahead rfl hrest others
  have hrun' : (program (Progress.start (used ++ t :: others))).1 = .error fault := by
    rw [show Progress.start (used ++ t :: others) =
      (Progress.start (used ++ t :: rest)).withRest (used ++ t :: others) from rfl, hsame, hrun]
  exact hkind (kind_eq_of_isDerivable hcompleted hrun')

/-- What the parser consumed before it refused to go on begins something derivable. -/
theorem begins_of_refused {used : List Token} {s m : Progress} {fault : Fault}
    (hrun : program s = (.error fault, m)) (hused : s.rest = used ++ m.rest)
    (hkind : fault.kind ≠ .nestingTooDeep) :
    Begins IsDerivable (used.map Token.terminal) := by
  obtain ⟨ts, ⟨used', hused', rfl⟩, hbegins⟩ := (program_parses.viable s).refused m fault hrun hkind
  obtain rfl : used = used' := List.append_cancel_right (hused.symm.trans hused')
  exact hbegins

end Parser

/-- The fault is at the token number `k`, which is the first one that cannot go on; if `k` is the
end, it is at the last token, behind which something is missing. -/
structure Fault.IsFirstIn (fault : Fault) (ts : List Token) (k : Nat) : Prop where
  /-- The tokens before the quoted one begin a program, and with that one they do not. -/
  inside : ∀ t, ts[k]? = some t →
    fault.lexeme = some t.lexeme ∧ fault.line = some t.line ∧ fault.column = some t.column ∧
      Begins IsDerivable ((ts.take k).map Token.terminal) ∧
      ¬Begins IsDerivable ((ts.take (k + 1)).map Token.terminal)
  /-- All the tokens are no program, and with some more they are. -/
  atEnd : k = ts.length →
    (∃ t, ts.getLast? = some t ∧ fault.line = some t.line ∧ fault.column = some t.column) ∧
      ¬IsDerivable (ts.map Token.terminal) ∧
      ∃ us, us ≠ [] ∧ IsDerivable (ts.map Token.terminal ++ us)

theorem Fault.IsFirstIn.of_inside {fault : Fault} {used rest : List Token} {t : Token}
    (hpoints : fault = .atToken fault.kind t)
    (hbegins : Begins IsDerivable (used.map Token.terminal))
    (hends : ¬Begins IsDerivable ((used ++ [t]).map Token.terminal)) :
    fault.IsFirstIn (used ++ t :: rest) used.length := by
  constructor
  · intro u hu
    obtain rfl : t = u := by simpa using hu
    have htake : (used ++ t :: rest).take (used.length + 1) = used ++ [t] := by
      rw [← List.singleton_append, ← List.append_assoc]
      exact List.take_left' (by simp)
    rw [List.take_left, htake, hpoints]
    exact ⟨rfl, rfl, rfl, hbegins, hends⟩
  · intro hend
    simp at hend

theorem Fault.IsFirstIn.of_atEnd {fault : Fault} {ts : List Token} {t : Token}
    (hlast : ts.getLast? = some t) (hpoints : fault.IsPlacedAt t)
    (hbegins : Begins IsDerivable (ts.map Token.terminal))
    (hends : ¬IsDerivable (ts.map Token.terminal)) : fault.IsFirstIn ts ts.length := by
  constructor
  · intro u hu
    simp at hu
  · intro _
    obtain ⟨us, hus⟩ := hbegins
    refine ⟨⟨t, hlast, hpoints.line, hpoints.column⟩, hends, us, ?_, hus⟩
    rintro rfl
    exact hends (by simpa using hus)

/-- **Valid prefixes.**  If some tokens are refused, but not for the depth of their nesting, the
fault is at the token that the parser has come to, which is the first one with which they begin no
program; if it has come to the end, the fault is at the last token, and only more tokens make a
program. -/
theorem parseTokens_fault_isFirst {ts : List Token} {fault : Fault} (hne : ts ≠ [])
    (hfault : parseTokens ts = .error fault) (hkind : fault.kind ≠ .nestingTooDeep) :
    ∃ k ≤ ts.length, (Parser.program (Progress.start ts)).2.rest = ts.drop k ∧
      fault.IsFirstIn ts k := by
  rw [parseTokens, if_neg (by simpa using hne)] at hfault
  have horderly := Parser.program_orderly (Progress.start ts)
  obtain ⟨used, hused, hlast⟩ := horderly.reaches.consumes
  have hpoints := (horderly.faults fault hfault).2
  have hbegins := Parser.begins_of_refused (Prod.ext hfault rfl) hused hkind
  have hts : ts = used ++ (Parser.program (Progress.start ts)).2.rest := hused
  refine ⟨used.length, ?_, ?_, ?_⟩
  · rw [hts, List.length_append]
    exact Nat.le_add_right ..
  · conv => rhs; rw [hts]
    exact List.drop_left.symm
  cases hrest : (Parser.program (Progress.start ts)).2.rest with
  | cons t rest =>
      rw [hrest] at hts
      subst hts
      simp only [Fault.PointsInto, hrest] at hpoints
      exact .of_inside hpoints hbegins
        (Parser.not_begins_of_refused hfault hrest hkind)
  | nil =>
      rw [hrest, List.append_nil] at hts
      subst hts
      have hends := mt (Parser.kind_eq_of_isDerivable · hfault) hkind
      obtain ⟨t, ht⟩ : ∃ t, ts.getLast? = some t :=
        ⟨ts.getLast hne, List.getLast?_eq_some_getLast hne⟩
      simp only [Fault.PointsInto, hrest, hlast, ht, Option.some_or] at hpoints
      exact .of_atEnd ht hpoints hbegins hends

/-- A program in which a value is missing, on one line. -/
def valuelessTokens : List Token :=
  [⟨.reservedWord, "program", 1, 7⟩, ⟨.identifier, "P", 1, 9⟩, ⟨.symbol, ";", 1, 10⟩,
    ⟨.reservedWord, "begin", 1, 16⟩, ⟨.identifier, "x", 1, 18⟩,
    ⟨.assignmentOperator, ":=", 1, 21⟩, ⟨.symbol, ";", 1, 23⟩]

/-- The semicolon stands where a value may not end yet; without it the fault is at the assignment
operator, behind which a value is missing. -/
theorem parseTokens_fault_isFirst_valueless :
    (parseTokens valuelessTokens = .error ⟨.invalidFactor, some ";", some 1, some 23⟩ ∧
      ∃ k ≤ 7, (Parser.program (Progress.start valuelessTokens)).2.rest = valuelessTokens.drop k ∧
        Fault.IsFirstIn ⟨.invalidFactor, some ";", some 1, some 23⟩ valuelessTokens k) ∧
    (parseTokens (valuelessTokens.take 6) =
        .error ⟨.expectedExpressionAfterAssignment, some ":=", some 1, some 21⟩ ∧
      ∃ k ≤ 6, (Parser.program (Progress.start (valuelessTokens.take 6))).2.rest =
          (valuelessTokens.take 6).drop k ∧
        Fault.IsFirstIn ⟨.expectedExpressionAfterAssignment, some ":=", some 1, some 21⟩
          (valuelessTokens.take 6) k) := by
  have hinside : parseTokens valuelessTokens =
      .error ⟨.invalidFactor, some ";", some 1, some 23⟩ := rfl
  have hatEnd : parseTokens (valuelessTokens.take 6) =
      .error ⟨.expectedExpressionAfterAssignment, some ":=", some 1, some 21⟩ := rfl
  exact ⟨⟨hinside, parseTokens_fault_isFirst (by decide) hinside (by decide)⟩,
    hatEnd, parseTokens_fault_isFirst (by decide) hatEnd (by decide)⟩

end MiniPascal
