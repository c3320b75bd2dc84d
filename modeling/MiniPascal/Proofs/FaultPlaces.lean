import MiniPascal.Proofs.Acceptance
import MiniPascal.Proofs.LexemeScanning
import MiniPascal.Proofs.LexemeSpelling
import MiniPascal.Proofs.Places
import MiniPascal.Proofs.ProductionRuns

/-!
# Where faults point

Tokens report the place of their last character, and every fault that is found behind
the first token reports the place of a token or of a character at which scanning
stopped.  What is quoted stands on the line of that place and ends there, since no
lexeme goes over a line feed; none ends with a carriage return either, so it is not
taken for the end of a line.
-/

namespace MiniPascal

/-- The place is that of a character of the text, and what is quoted stands on its line and ends
with it. -/
def IsPlaceIn (text : List Char) (quoted : Option String) (place : Nat × Nat) : Prop :=
  ∃ before c behind, text = before ++ c :: behind ∧ place = placeBehind before ∧
    ∀ lexeme, quoted = some lexeme →
      c ≠ '\n' ∧ c ≠ '\r' ∧ lexeme.toList <:+ lastLine before ++ [c]

/-- The fault is placed at a character of the text, with which what it quotes ends. -/
structure Fault.PointsIn (fault : Fault) (text : List Char) : Prop where
  kind : fault.kind ≠ .noTokensToParse
  place : ∃ line column, fault.line = some line ∧ fault.column = some column ∧
    IsPlaceIn text fault.lexeme (line, column)

/-- The characters stand on one line and do not end with a carriage return. -/
def StaysOnLine (cs : List Char) : Prop :=
  '\n' ∉ cs ∧ cs.getLast? ≠ some '\r'

instance : DecidablePred StaysOnLine :=
  fun _ => instDecidableAnd

/-- Characters that stand on their line end at the place of the last one. -/
theorem IsPlaceIn.of_staysOnLine {before chars behind : List Char} {c : Char} {lexeme : String}
    (hlexeme : lexeme.toList = chars ++ [c]) (hstays : StaysOnLine (chars ++ [c])) :
    IsPlaceIn (before ++ chars ++ c :: behind) (some lexeme) (placeBehind (before ++ chars)) := by
  obtain ⟨hfeed, hreturn⟩ := hstays
  obtain ⟨hchars, hc⟩ : '\n' ∉ chars ∧ c ≠ '\n' := by simpa [eq_comm] using hfeed
  refine ⟨before ++ chars, c, behind, rfl, rfl, fun quoted hquoted => ⟨hc, ?_, ?_⟩⟩
  · rintro rfl
    simp at hreturn
  · obtain rfl := Option.some.inj hquoted
    rw [hlexeme, lastLine_append before hchars, List.append_assoc]
    exact List.suffix_append ..

/-- Less may be quoted. -/
theorem IsPlaceIn.of_quotes {text : List Char} {quoted : Option String} {lexeme : String}
    {place : Nat × Nat} (h : IsPlaceIn text (some lexeme) place)
    (hquoted : ∀ other, quoted = some other → other = lexeme) : IsPlaceIn text quoted place := by
  obtain ⟨before, c, behind, htext, hplace, hends⟩ := h
  refine ⟨before, c, behind, htext, hplace, fun other hother => ?_⟩
  obtain rfl := hquoted other hother
  exact hends other rfl

/-! ### Lexemes stay on their line -/

theorem staysOnLine_of_forall {cs : List Char} (h : ∀ c ∈ cs, isWordChar c = true ∨ c = '.') :
    StaysOnLine cs := by
  constructor
  · intro hmem
    exact absurd (h _ hmem) (by decide)
  · intro hlast
    exact absurd (h _ (List.mem_of_getLast? hlast)) (by decide)

theorem staysOnLine_of_isQuotedText {text : String} (h : isQuotedText text = true) :
    StaysOnLine text.toList := by
  have hquotes : ∀ {d : Char}, isQuote d = true → d ≠ '\n' ∧ d ≠ '\r' := by
    intro d hd
    constructor <;> rintro rfl <;> exact absurd hd (by decide)
  unfold isQuotedText at h
  split at h
  · simp at h
  next c cs hcs =>
  simp only [Bool.and_eq_true] at h
  obtain ⟨⟨hquote, hlast⟩, hbody⟩ := h
  obtain ⟨d, hd, hclosing⟩ := (Option.any_eq_true ..).1 hlast
  obtain ⟨body, rfl⟩ := List.getLast?_eq_some_iff.1 hd
  have hstays : '\n' ∉ body := by
    intro hmem
    rw [List.dropLast_concat] at hbody
    exact absurd (List.all_eq_true.1 hbody _ hmem) (by decide)
  rw [hcs]
  constructor
  · simp [hstays, (hquotes hquote).1.symm, (hquotes hclosing).1.symm]
  · rw [← List.cons_append, List.getLast?_concat]
    simpa using (hquotes hclosing).2

/-- No lexeme goes over a line feed or ends with a carriage return. -/
theorem Terminal.staysOnLine {t : Terminal} (h : t.isSpelled = true) :
    StaysOnLine t.lexeme.toList := by
  have hwords : ∀ w ∈ reservedWords ++ reservedTypes ++ reservedOperators,
      StaysOnLine w.toList := by decide
  have hfixed : ∀ entry ∈ fixedLexemes, StaysOnLine entry.1 := by decide
  unfold isSpelled at h
  split at h
  · exact hwords _ (by simp [of_decide_eq_true h])
  · exact hwords _ (by simp [of_decide_eq_true h])
  · exact hwords _ (by simp [of_decide_eq_true h])
  · obtain ⟨hword, -⟩ := Bool.and_eq_true_iff.1 h
    obtain ⟨-, hall⟩ := Bool.and_eq_true_iff.1 hword
    exact staysOnLine_of_forall fun c hc => .inl (List.all_eq_true.1 hall c hc)
  · obtain ⟨-, hdigits⟩ := isIntegerNumeral_iff.1 h
    exact staysOnLine_of_forall fun c hc => .inl (isWordChar_of_isDigit (hdigits c hc))
  · obtain ⟨whole, fraction, htext, -, hwhole, hfraction⟩ := isRealNumeral_iff.1 h
    refine staysOnLine_of_forall fun c hc => ?_
    rw [htext, List.mem_append, List.mem_cons] at hc
    rcases hc with hc | hc | hc
    · exact .inl (isWordChar_of_isDigit (hwhole c hc))
    · exact .inr hc
    · exact .inl (isWordChar_of_isDigit (hfraction c hc))
  · exact staysOnLine_of_isQuotedText h
  · exact hfixed _ (of_decide_eq_true h)

/-- A refusal is about one character, which it quotes, or about a string. -/
theorem Reading.Covers.refused_cases {fault : Fault} {cs rest : List Char}
    (h : (Reading.refused fault).Covers cs rest) :
    (fault.kind = .unknownCharacter ∧ ∃ c, cs = [c] ∧ fault.lexeme = some c.toString) ∨
      fault.kind = .stringNotClosed := by
  cases h with
  | stray hkind hlexeme => exact .inl ⟨hkind, _, rfl, hlexeme⟩
  | unclosed hkind | unclosedAtEnd hkind => exact .inr hkind

namespace Cursor

/-- What a refusal quotes is the one character that begins no lexeme. -/
theorem quotes_of_refused {cursor after : Cursor} {fault : Fault}
    (h : cursor.next = (.refused fault, after)) {lexeme : String}
    (hlexeme : fault.lexeme = some lexeme) :
    fault.kind = .unknownCharacter ∧ ∃ c, lexeme = c.toString ∧ isBlank c = false := by
  cases hrest : cursor.skipBlanks.rest with
  | nil => simp [next_of_rest_nil hrest] at h
  | cons c cs =>
      obtain ⟨gap, hskips⟩ := exists_skips cursor.location cursor.rest
      obtain ⟨hblank, -⟩ := hskips.stops c cs hrest
      rw [next_of_rest_cons hrest] at h
      obtain ⟨hreading, -⟩ := Prod.mk.inj h
      have hstray : ∀ d, (munch c cs).1 = .stray d → d = c := by
        intro d hd
        have happend := munch_append c cs
        rw [hd] at happend
        exact (List.cons.inj happend).1
      cases hpiece : (munch c cs).1 with
      | lexeme category chars => simp [hpiece, Piece.reading] at hreading
      | unclosed chars =>
          rw [hpiece] at hreading
          obtain rfl := Reading.refused.inj hreading
          simp [Fault.placed] at hlexeme
      | stray d =>
          rw [hpiece] at hreading
          obtain rfl := Reading.refused.inj hreading
          obtain rfl := hstray d hpiece
          exact ⟨rfl, d, (Option.some.inj hlexeme).symm, hblank⟩

variable {cursor after : Cursor} {consumed text : List Char}

/-- An answer before the end of the text is about some characters, and reports the place of the last
one. -/
theorem StandsBehind.exists_covers {reading : Reading} (h : cursor.StandsBehind consumed text)
    (hnext : cursor.next = (reading, after)) (hreading : ∀ marker, reading ≠ .finished marker) :
    ∃ before chars c, text = before ++ chars ++ c :: after.rest ∧
      reading.Covers (chars ++ [c]) after.rest ∧
      reading.place = some (placeBehind (before ++ chars)) := by
  rcases cursor.next_cases with ⟨-, line, column, other, hfinished, -⟩ |
    ⟨gap, piece, answer, other, hanswer, -, hne, hcovers, hsplit⟩
  · exact absurd (Prod.mk.inj (hnext.symm.trans hfinished)).1 (hreading _)
  · obtain ⟨rfl, rfl⟩ := Prod.mk.inj (hnext.symm.trans hanswer)
    obtain ⟨chars, c, rfl⟩ : ∃ chars c, piece = chars ++ [c] :=
      ⟨_, _, (List.dropLast_append_getLast hne).symm⟩
    refine ⟨consumed ++ gap, chars, c, ?_, hcovers, h.place_of_covers hnext hcovers hsplit⟩
    rw [h.split, hsplit]
    simp

/-- A token is placed where its lexeme ends in the text. -/
theorem StandsBehind.isPlaceIn_of_token {t : Token} (h : cursor.StandsBehind consumed text)
    (hnext : cursor.next = (.token t, after)) :
    IsPlaceIn text (some t.lexeme) (t.line, t.column) := by
  obtain ⟨before, chars, c, rfl, hcovers, hplace⟩ := h.exists_covers hnext (by simp)
  have hstays : StaysOnLine t.lexeme.toList := Terminal.staysOnLine (isSpelled_of_next hnext)
  have hchars : t.lexeme.toList = chars ++ [c] := by
    generalize hpiece : chars ++ [c] = piece at hcovers
    cases hcovers
    rfl
  rw [Option.some.inj hplace]
  exact .of_staysOnLine hchars (hchars ▸ hstays)

/-- A refusal points at the character that begins no lexeme, or at the end of the string that is not
closed. -/
theorem StandsBehind.pointsIn_of_refused {fault : Fault} (h : cursor.StandsBehind consumed text)
    (hnext : cursor.next = (.refused fault, after)) : fault.PointsIn text := by
  obtain ⟨before, chars, c, rfl, hcovers, hplace⟩ := h.exists_covers hnext (by simp)
  obtain ⟨line, hline, column, hcolumn, heq⟩ :
      ∃ line, fault.line = some line ∧ ∃ column, fault.column = some column ∧
        (line, column) = placeBehind (before ++ chars) := by
    simpa [Reading.place, Option.bind_eq_some_iff] using hplace
  have hcases := hcovers.refused_cases
  have hkind : fault.kind ≠ .noTokensToParse := by
    rcases hcases with ⟨hkind, -⟩ | hkind <;> simp [hkind]
  refine ⟨hkind, line, column, hline, hcolumn, ?_⟩
  rw [heq]
  refine ⟨before ++ chars, c, after.rest, rfl, rfl, fun lexeme hlexeme => ?_⟩
  -- only a character that begins no lexeme is quoted, and that is no blank
  obtain ⟨hunknown, d, rfl, hblank⟩ := quotes_of_refused hnext hlexeme
  rcases hcases with ⟨-, e, hpiece, hquoted⟩ | hclosed
  · obtain ⟨rfl, rfl⟩ : chars = [] ∧ c = e := by
      cases chars <;> simp_all
    obtain rfl : c = d := by
      have htext := congrArg String.toList (Option.some.inj (hquoted.symm.trans hlexeme))
      simpa using htext
    refine ⟨?_, ?_, by simp⟩ <;> rintro rfl <;> exact absurd hblank (by decide)
  · exact absurd (hunknown.symm.trans hclosed) (by decide)

/-- The tokens of a scan are placed where their lexemes end, and its fault at a character. -/
theorem StandsBehind.scan (h : cursor.StandsBehind consumed text) :
    (∀ t ∈ cursor.scan.1, IsPlaceIn text (some t.lexeme) (t.line, t.column)) ∧
      ∀ fault, cursor.scan.2 = some fault → fault.PointsIn text := by
  induction cursor using scan.induct generalizing consumed with
  | case1 cursor marker after hnext => simp [scan_of_finished hnext]
  | case2 cursor fault after hnext =>
      rw [scan_of_refused hnext]
      refine ⟨by simp, fun other hother => ?_⟩
      obtain rfl := Option.some.inj hother
      exact h.pointsIn_of_refused hnext
  | case3 cursor t after hnext ts fault hscan ih =>
      obtain ⟨consumed', hbehind⟩ := h.next
      rw [hnext] at hbehind
      obtain ⟨htokens, hfault⟩ := ih hbehind
      rw [scan_of_token hnext]
      refine ⟨fun t' ht' => ?_, hfault⟩
      rcases List.mem_cons.1 ht' with rfl | ht'
      · exact h.isPlaceIn_of_token hnext
      · exact htokens t' ht'

end Cursor

/-! ### Whole texts -/

/-- Tokens that are refused contain one at which the fault is placed, unless there are none. -/
theorem parseTokens_fault_isPlacedAt {ts : List Token} {fault : Fault} (hne : ts ≠ [])
    (h : parseTokens ts = .error fault) :
    fault.kind ≠ .noTokensToParse ∧ ∃ t ∈ ts, fault.IsPlacedAt t := by
  rw [parseTokens_of_ne_nil hne] at h
  have horderly := Parser.program_orderly (Progress.start ts)
  obtain ⟨hkind, hpoints⟩ := horderly.faults fault h
  obtain ⟨used, hused, hlast⟩ := horderly.reaches.consumes
  have hts : ts = used ++ (Parser.program (Progress.start ts)).2.rest := hused
  refine ⟨hkind, ?_⟩
  cases hrest : (Parser.program (Progress.start ts)).2.rest with
  | cons t rest =>
      simp only [Fault.PointsInto, hrest] at hpoints
      refine ⟨t, by rw [hts, hrest]; simp, ?_⟩
      rw [hpoints]
      exact Fault.isPlacedAt_atToken _ t
  | nil =>
      rw [hrest, List.append_nil] at hts
      obtain ⟨t, ht⟩ : ∃ t, used.getLast? = some t :=
        ⟨used.getLast (hts ▸ hne), List.getLast?_eq_some_getLast (hts ▸ hne)⟩
      simp only [Fault.PointsInto, hrest, hlast, ht, Option.some_or] at hpoints
      exact ⟨t, by rw [hts]; exact List.mem_of_getLast? ht, hpoints⟩

/-- A fault that is not about a text without tokens points at a character of the text. -/
theorem parseText_fault_pointsIn {text : String} {fault : Fault}
    (h : parseText text = .error fault) :
    fault = .unplaced .noTokensToParse ∨ fault.PointsIn text.toList := by
  obtain ⟨htokens, hfault⟩ := (Cursor.standsBehind_ofString text).scan
  rcases scanText_of_parseText_error h with hscan | ⟨ts, hscan, hparse⟩
  · obtain ⟨ts, hscan⟩ := scan_of_scanText_error hscan
    exact .inr (hfault fault (by rw [hscan]))
  · rw [scan_of_scanText hscan] at htokens
    by_cases hne : ts = []
    · subst hne
      exact .inl (Except.error.inj hparse).symm
    · obtain ⟨hkind, t, ht, hplaced⟩ := parseTokens_fault_isPlacedAt hne hparse
      exact .inr ⟨hkind, _, _, hplaced.line, hplaced.column,
        (htokens t ht).of_quotes hplaced.quotes⟩

end MiniPascal
