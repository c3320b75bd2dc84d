import MiniPascal.Proofs.StatementParsing

/-!
# What is accepted

A sequence of tokens is accepted as a program exactly if its terminals derive the
program, the program is unambiguous, and no level of nesting that the derivation
reaches is too deep.  Tokens that derive an unambiguous program are never refused for
another reason than depth.  A text is accepted if it is scanned to such tokens.
-/

namespace MiniPascal

namespace Parser

theorem block_sound {s m : Progress} {b : Block} (h : block s = (.ok b, m)) :
    ∃ ts ns, s.Consumes m (Declaration.terminalsAll b.declarations ++
        (.word "begin" :: (ts ++ [.word "end"]))) ∧
      Declaration.AllNamed b.declarations ∧ Statement.DerivesAll b.body ts ns ∧
      Statement.areUnambiguous b.body = true := by
  obtain ⟨ds, m₁, hds, hrun₁⟩ := bind_eq_ok h
  obtain ⟨ss, m₂, hss, hpure⟩ := bind_eq_ok hrun₁
  obtain ⟨rfl, rfl⟩ := pure_eq_ok hpure
  obtain ⟨hdsConsumes, hnamed, -⟩ := declarations_sound hds
  obtain ⟨ts, ns, hssConsumes, hderives, hunambiguous⟩ :=
    compound_sound (statementWithin_sound maxDepth) hss
  exact ⟨ts, ns, hdsConsumes.trans hssConsumes, hnamed, hderives, hunambiguous⟩

/-- A program that is parsed goes to the end of the tokens. -/
theorem program_consumes {s m : Progress} {p : Program} (h : program s = (.ok p, m)) :
    m.rest = [] ∧ ∃ ts ns, s.Consumes m ts ∧ p.Derives ts ns ∧ p.isUnambiguous = true := by
  obtain ⟨programToken, m₁, hprogram, hprogramConsumes, hrun₁⟩ := takeWithin_eq_ok h
  obtain ⟨name, m₂, hname, hnameConsumes, hrun₂⟩ := takeWithin_eq_ok hrun₁
  obtain ⟨semicolon, m₃, hsemicolon, hsemicolonConsumes, hrun₃⟩ := takeWithin_eq_ok hrun₂
  obtain ⟨b, m₄, hblock, hrun₄⟩ := bind_eq_ok hrun₃
  obtain ⟨dot, m₅, hdot, hdotConsumes, hrun₅⟩ := take_eq_ok hrun₄
  obtain ⟨following, m₆, hpeek, hrun₆⟩ := bind_eq_ok hrun₅
  obtain ⟨hfollowing, rfl⟩ := Prod.mk.inj hpeek
  obtain ⟨ts, ns, hblockConsumes, hnamed, hderives, hunambiguous⟩ := block_sound hblock
  rw [Token.isReservedWord_iff.1 hprogram] at hprogramConsumes
  rw [isIdentifier_iff.1 hname] at hnameConsumes
  rw [Token.isSymbol_iff.1 hsemicolon] at hsemicolonConsumes
  rw [Token.isSymbol_iff.1 hdot] at hdotConsumes
  cases following with
  | some t => exact absurd hrun₆ refuse_ne_ok
  | none =>
      obtain ⟨rfl, rfl⟩ := pure_eq_ok hrun₆
      have hconsumes := hprogramConsumes.cons (hnameConsumes.cons
        (hsemicolonConsumes.cons (hblockConsumes.trans hdotConsumes)))
      exact ⟨by simpa using hfollowing, _, ns, hconsumes, ⟨hnamed, ts, hderives, by simp⟩,
        hunambiguous⟩

theorem program_sound {s m : Progress} {p : Program} (h : program s = (.ok p, m)) :
    ∃ ns, p.Derives (s.rest.map Token.terminal) ns ∧ p.isUnambiguous = true := by
  obtain ⟨hend, _, ns, ⟨used, hused, rfl⟩, hderives, hunambiguous⟩ := program_consumes h
  refine ⟨ns, ?_, hunambiguous⟩
  rwa [hused, hend, List.append_nil]

theorem reads_program {p : Program} {ts : List Token} {ns : List Nat}
    (hderives : p.Derives (ts.map Token.terminal) ns) (hunambiguous : p.isUnambiguous = true) :
    Reads program (Progress.start ts) (∀ n ∈ ns, n ≤ maxDepth) p [] 0 := by
  obtain ⟨hnamed, us, hbody, hts⟩ := hderives
  obtain ⟨programToken, ts₁, rfl, hprogram, hts₁⟩ := List.map_eq_cons_iff.1 hts
  obtain ⟨name, ts₂, rfl, hname, hts₂⟩ := List.map_eq_cons_iff.1 hts₁
  obtain ⟨semicolon, ts₃, rfl, hsemicolon, hts₃⟩ := List.map_eq_cons_iff.1 hts₂
  obtain ⟨declared, ts₄, rfl, hdeclared, hts₄⟩ := List.map_eq_append_iff.1 hts₃
  -- the dot behind the block is what the compound statement in it ends before
  have hsplit : Terminal.word "begin" :: (us ++ [.word "end", .symbol "."]) =
      (.word "begin" :: (us ++ [.word "end"])) ++ [.symbol "."] := by simp
  obtain ⟨compounded, ts₅, rfl, hcompounded, hts₅⟩ :=
    List.map_eq_append_iff.1 (hts₄.trans hsplit)
  obtain ⟨dot, rfl, hdot⟩ := List.map_eq_singleton_iff.1 hts₅
  have hlexeme : name.lexeme = p.name := congrArg Terminal.lexeme hname
  obtain ⟨beginToken, inner, rfl, hbegin, -⟩ := List.map_eq_cons_iff.1 hcompounded
  -- `begin` ends the declarations
  have hnoVar : (beginToken :: inner ++ [dot]).head?.any (·.isReservedWord "var") = false := by
    have hvar : ¬beginToken.isReservedWord "var" = true := by
      rw [Token.isReservedWord_iff, hbegin]
      decide
    simpa using hvar
  have hcompound := (readableStatements_of_derives hbody hunambiguous).compound hcompounded
    (show maxDepth ≤ maxDepth + 0 from Nat.le_refl maxDepth) [dot]
  obtain ⟨last, hdeclarations⟩ := run_declarations hnamed hdeclared
    (show beginToken :: inner ++ [dot] ≠ [] by simp) hnoVar (some semicolon) 0
  have hblock : Reads block ⟨declared ++ (beginToken :: inner ++ [dot]), some semicolon, 0⟩
      (∀ n ∈ ns, 0 + n ≤ maxDepth) p.block [dot] 0 :=
    .of_run hdeclarations ((hcompound last).bind_good fun _ _ => Reads.of_ok rfl)
  simp only [Nat.zero_add] at hblock
  refine Reads.takeWithin (Token.isReservedWord_iff.2 hprogram) (by simp) ?_
  refine Reads.takeWithin (isIdentifier_iff.2 (by rw [hname, hlexeme])) (by simp) ?_
  refine Reads.takeWithin (Token.isSymbol_iff.2 hsemicolon) (by simp) ?_
  refine hblock.bind_good fun _ _ => Reads.take (Token.isSymbol_iff.2 hdot) ?_
  rw [hlexeme]
  exact Reads.of_ok rfl

end Parser

theorem Program.Derives.ne_nil {p : Program} {ts : List Terminal} {ns : List Nat}
    (h : p.Derives ts ns) : ts ≠ [] := by
  obtain ⟨us, -, rfl⟩ := h.body
  simp

theorem parseTokens_of_ne_nil {ts : List Token} (hne : ts ≠ []) :
    parseTokens ts = (Parser.program (Progress.start ts)).1 := by
  rw [parseTokens, if_neg (by simpa using hne)]

theorem parseTokens_sound {ts : List Token} {p : Program} (h : parseTokens ts = .ok p) :
    ∃ ns, p.Derives (ts.map Token.terminal) ns ∧ p.isUnambiguous = true := by
  unfold parseTokens at h
  split at h
  · simp at h
  · exact Parser.program_sound (Prod.ext h rfl)

/-- If the levels suffice, tokens that derive an unambiguous program are accepted. -/
theorem parseTokens_of_derives {ts : List Token} {p : Program} {ns : List Nat}
    (hderives : p.Derives (ts.map Token.terminal) ns) (hunambiguous : p.isUnambiguous = true)
    (hfits : ∀ n ∈ ns, n ≤ maxDepth) : parseTokens ts = .ok p := by
  have hne : ts ≠ [] := by simpa using hderives.ne_nil
  obtain ⟨last, hrun⟩ := (Parser.reads_program hderives hunambiguous).ends hfits
  rw [parseTokens_of_ne_nil hne, hrun]

/-- If the levels do not suffice, tokens that derive an unambiguous program are refused for their
depth. -/
theorem parseTokens_of_derives_of_not_fits {ts : List Token} {p : Program} {ns : List Nat}
    (hderives : p.Derives (ts.map Token.terminal) ns) (hunambiguous : p.isUnambiguous = true)
    (hfits : ¬∀ n ∈ ns, n ≤ maxDepth) :
    ∃ fault, parseTokens ts = .error fault ∧ fault.kind = .nestingTooDeep := by
  have hne : ts ≠ [] := by simpa using hderives.ne_nil
  obtain ⟨fault, hrun, hkind⟩ := (Parser.reads_program hderives hunambiguous).refused hfits
  exact ⟨fault, by rw [parseTokens_of_ne_nil hne, hrun], hkind⟩

/-- What is accepted is unambiguous and derived within the levels that there are. -/
theorem exists_derives_of_parseTokens {ts : List Token} {p : Program}
    (h : parseTokens ts = .ok p) :
    p.isUnambiguous = true ∧
      ∃ ns, p.Derives (ts.map Token.terminal) ns ∧ ∀ n ∈ ns, n ≤ maxDepth := by
  obtain ⟨ns, hderives, hunambiguous⟩ := parseTokens_sound h
  refine ⟨hunambiguous, ns, hderives, Decidable.byContradiction fun hfits => ?_⟩
  obtain ⟨fault, hfault, -⟩ := parseTokens_of_derives_of_not_fits hderives hunambiguous hfits
  simp [h] at hfault

/-- **Exact acceptance.**  Tokens are accepted with the tree `p` if and only if their categories and
lexemes derive `p` from the grammar, with every alternative at the nearest open conditional and every
run of declarations as long as possible, and no statement and no expression in it needs more than
`maxDepth` levels. -/
theorem parseTokens_eq_ok_iff (ts : List Token) (p : Program) :
    parseTokens ts = .ok p ↔
      p.isUnambiguous = true ∧
        ∃ ns, p.Derives (ts.map Token.terminal) ns ∧ ∀ n ∈ ns, n ≤ maxDepth := by
  constructor
  · exact exists_derives_of_parseTokens
  · rintro ⟨hunambiguous, ns, hderives, hfits⟩
    exact parseTokens_of_derives hderives hunambiguous hfits

/-! ### Texts -/

theorem parseText_eq_parseTokens {text : String} {ts : List Token} (h : scanText text = .ok ts) :
    parseText text = parseTokens ts := by
  rw [parseText, h]
  rfl

theorem scanText_of_parseText {text : String} {p : Program} (h : parseText text = .ok p) :
    ∃ ts, scanText text = .ok ts ∧ parseTokens ts = .ok p := by
  cases hscan : scanText text with
  | error fault =>
      rw [parseText, hscan] at h
      exact absurd h (by simp [bind, Except.bind])
  | ok ts => exact ⟨ts, rfl, (parseText_eq_parseTokens hscan).symm.trans h⟩

/-- A text is refused by the scan or for its tokens. -/
theorem scanText_of_parseText_error {text : String} {fault : Fault}
    (h : parseText text = .error fault) :
    scanText text = .error fault ∨ ∃ ts, scanText text = .ok ts ∧ parseTokens ts = .error fault := by
  cases hscan : scanText text with
  | error found =>
      rw [parseText, hscan] at h
      obtain rfl : found = fault := Except.error.inj h
      exact .inl rfl
  | ok ts => exact .inr ⟨ts, rfl, (parseText_eq_parseTokens hscan).symm.trans h⟩

end MiniPascal
