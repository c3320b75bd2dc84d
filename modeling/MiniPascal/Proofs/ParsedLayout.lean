import MiniPascal.Proofs.LayoutLevels
import MiniPascal.Proofs.LayoutRoundtrip
import MiniPascal.Proofs.LexemeSpelling

/-!
# Laying out what was parsed

A program that was parsed from a text is well spelled and unambiguous, so its layout
is read back unless it reaches a level that is too deep.  The source did not, but
the parentheses around a product behind a sign take a level that it did not need.
-/

namespace MiniPascal

/-- What is parsed from a text is well spelled and unambiguous, and derived within the levels that
there are. -/
theorem parseText_sound {text : String} {p : Program} (h : parseText text = .ok p) :
    p.isWellSpelled = true ∧ p.isUnambiguous = true ∧
      ∃ ts ns, p.Derives ts ns ∧ ∀ n ∈ ns, n ≤ maxDepth := by
  obtain ⟨tokens, hscan, hparse⟩ := scanText_of_parseText h
  obtain ⟨hunambiguous, ns, hderives, hfits⟩ := exists_derives_of_parseTokens hparse
  have hspelled : p.isWellSpelled = true := by
    refine hderives.isWellSpelled fun t ht => ?_
    obtain ⟨token, htoken, rfl⟩ := List.mem_map.1 ht
    exact isSpelled_of_scanText hscan token htoken
  exact ⟨hspelled, hunambiguous, _, ns, hderives, hfits⟩

/-- Without a product behind a sign the layout of a parsed program fits. -/
theorem layoutFits_of_signedProducts_eq_zero {text : String} {p : Program}
    (h : parseText text = .ok p) (hsigns : p.signedProducts = 0) : p.layoutFits = true := by
  obtain ⟨-, -, ts, ns, hderives, hfits⟩ := parseText_sound h
  refine Program.layoutFits_iff.2 fun n hn => ?_
  obtain ⟨m, hm, hle⟩ := hderives.layoutLevels_below hsigns n hn
  exact Nat.le_trans hle (hfits m hm)

/-! ### Products behind a sign -/

/-- A product with `n` operators. -/
def power : Nat → Expression
  | 0 => .ident "a"
  | n + 1 => .binary .mul (power n) (.ident "a")

/-- The text of a product with `n` operators and no blanks. -/
def powerText : Nat → String
  | 0 => "a"
  | n + 1 => powerText n ++ "*a"

/-- A program that assigns a product behind a sign. -/
def negatedPower (n : Nat) : Program :=
  ⟨"P", ⟨[], [.assign "x" (.signed .minus (power n))]⟩⟩

/-- The text of a program that assigns a product behind a sign, which needs no parentheses. -/
def negatedPowerText (n : Nat) : String :=
  "program P; begin x := -" ++ powerText n ++ "; end."

theorem power_rank (n : Nat) : 3 ≤ (power n).rank := by
  cases n with
  | zero => decide
  | succ n => exact Nat.le_refl 3

theorem power_isWellSpelled (n : Nat) : (power n).isWellSpelled = true := by
  induction n with
  | zero => decide
  | succ n ih =>
      have ha : (Expression.ident "a").isWellSpelled = true := by decide
      rw [power, Expression.isWellSpelled, ih, ha]
      rfl

theorem power_chained (n : Nat) : (power n).chained = n := by
  induction n with
  | zero => rfl
  | succ n ih => simp [power, Expression.chained, ih, BinaryOperator.isRelational]

theorem power_terminals_succ (n : Nat) :
    (power (n + 1)).terminals = (power n).terminals ++ [.operator .mul, .name "a"] := by
  have hmul : BinaryOperator.mul.isMultiplicative = true := rfl
  obtain ⟨hleft, hright⟩ := Expression.needsParens_of_isMultiplicative hmul (power n) (.ident "a")
  have hrank : ¬(power n).rank < Expression.Layer.term.rank := Nat.not_lt.2 (power_rank n)
  rw [power, Expression.terminals, hleft, hright, decide_eq_false hrank]
  rfl

theorem power_parens (n : Nat) : (power n).terminals.count (.symbol "(") = 0 := by
  induction n with
  | zero => decide
  | succ n ih =>
      rw [power_terminals_succ, List.count_append, ih]
      decide

/-- The text of a product scans to the terminals of its layout. -/
theorem scans_powerText (n : Nat) {rest : List Char} {ts : List Terminal}
    (hrest : rest.head?.any isWordChar = false) (h : Scans rest ts) :
    Scans ((powerText n).toList ++ rest) ((power n).terminals ++ ts) := by
  have ha : isName "a" = true := by decide
  induction n generalizing rest ts with
  | zero => exact h.name ha hrest
  | succ n ih =>
      have hlast : Scans ("a".toList ++ rest) (.name "a" :: ts) := h.name ha hrest
      have hstar : Scans ('*' :: ("a".toList ++ rest)) (.operator .mul :: .name "a" :: ts) :=
        @Scans.fixed '*' _ ['*'] _ .arithmeticOperator _ rfl rfl rfl rfl hlast
      have hscans := ih rfl hstar
      rw [power_terminals_succ]
      simpa [powerText] using hscans

/-- The terminals of the text of a product behind a sign. -/
def negatedPowerTerminals (n : Nat) : List Terminal :=
  [.word "program", .name "P", .symbol ";", .word "begin", .name "x", .becomes, .operator .sub] ++
    ((power n).terminals ++ [.symbol ";", .word "end", .symbol "."])

theorem scans_negatedPowerText (n : Nat) :
    Scans (negatedPowerText n).toList (negatedPowerTerminals n) := by
  have hx : isName "x" = true := by decide
  have hP : isName "P" = true := by decide
  have hdot : Scans ['.'] [.symbol "."] := Scans.nil.symbol (by decide)
  have hend := (hdot.reservedWord (w := "end") (by decide) rfl).blank (c := ' ') rfl
  have hpower := scans_powerText n rfl (hend.symbol (c := ';') (by decide))
  have hvalue := ((hpower.sign .minus).blank (c := ' ') rfl).becomes.blank (c := ' ') rfl
  have htarget := (hvalue.name hx rfl).blank (c := ' ') rfl
  have hbegin := (htarget.reservedWord (w := "begin") (by decide) rfl).blank (c := ' ') rfl
  have hname := (hbegin.symbol (c := ';') (by decide)).name hP rfl
  have hprogram := (hname.blank (c := ' ') rfl).reservedWord (w := "program") (by decide) rfl
  have htext : (negatedPowerText n).toList = "program".toList ++ ' ' :: ("P".toList ++ ';' :: ' ' ::
      ("begin".toList ++ ' ' :: ("x".toList ++ ' ' :: ':' :: '=' :: ' ' ::
        (Sign.minus.spelling.toList ++ ((powerText n).toList ++
          (';' :: ' ' :: ("end".toList ++ ['.']))))))) := by
    unfold negatedPowerText
    generalize powerText n = text
    simp [Sign.spelling]
  rw [htext]
  exact hprogram

theorem negatedPower_derives (n : Nat) :
    (negatedPower n).Derives (negatedPowerTerminals n) [1, n + 2] := by
  have hterm := Expression.derives_terminals (power_isWellSpelled n) .term (power_rank n)
  have hsigned : (Expression.signed .minus (power n)).Derives .simple
      (.operator .sub :: (power n).terminals) := .signed ⟨rfl, rfl⟩ hterm
  have hassign : (Statement.assign "x" (.signed .minus (power n))).Derives _ _ :=
    .assign (show Terminal.becomes.category = .assignmentOperator from rfl) (.ofSimple hsigned)
  have hlevels : 1 + (Expression.signed .minus (power n)).levels
      (.operator .sub :: (power n).terminals) = n + 2 := by
    have hinner : (Expression.signed .minus (power n)).innerLevels _ = _ :=
      Expression.innerLevels_signed (Terminal.operator_denotes .sub) (power n) (power n).terminals
    have hcount := power_parens n
    have hchained := power_chained n
    rw [Expression.levels, hinner, Expression.innerLevels, hcount, hchained]
    omega
  rw [hlevels] at hassign
  have hbody : Statement.DerivesAll (negatedPower n).block.body _ [1, n + 2] := .cons hassign .nil
  refine ⟨fun d hd => absurd hd List.not_mem_nil, _, hbody, ?_⟩
  simp [negatedPowerTerminals, negatedPower, Declaration.terminalsAll]

/-- With up to `maxDepth - 2` operators the text is accepted. -/
theorem parseText_negatedPowerText {n : Nat} (hn : n + 2 ≤ maxDepth) :
    parseText (negatedPowerText n) = .ok (negatedPower n) := by
  obtain ⟨ts, hscan, hterminals⟩ := (scans_negatedPowerText n).scanText_eq_ok
  have hderives := negatedPower_derives n
  rw [← hterminals] at hderives
  have hone : 1 ≤ maxDepth := by decide
  rw [parseText_eq_parseTokens hscan]
  exact parseTokens_of_derives hderives rfl (by simp [hn, hone])

/-- The layout takes one level more, for the parentheses behind the sign. -/
theorem negatedPower_layoutLevels (n : Nat) :
    (negatedPower (n + 1)).layoutLevels = [1, n + 4] := by
  have hcount : (Expression.signed .minus (power (n + 1))).terminals.count (.symbol "(") = 1 := by
    rw [Expression.count_terminals_signed, power_parens]
    rfl
  have hchained : (Expression.signed .minus (power (n + 1))).chained = n + 1 := power_chained (n + 1)
  have hlevels : 1 + (Expression.signed .minus (power (n + 1))).layoutLevels = n + 4 := by
    rw [Expression.layoutLevels, Expression.levels, Expression.innerLevels, hcount, hchained]
    omega
  rw [← hlevels]
  rfl

/-! ### Reading the layout back -/

/-- **The layout of a parsed program.**  It is scanned without a fault.  It is parsed to the same
program, whose layout is the same text, exactly if no level that it reaches is too deep; otherwise
it is refused for its depth.  No level is too deep if no sign stands in front of a product. -/
theorem parseText_layout_eq_ok_iff (text : String) (p : Program) (h : parseText text = .ok p) :
    (∃ ts, scanText p.layout = .ok ts) ∧
      (parseText p.layout = .ok p ↔ ∀ n ∈ p.layoutLevels, n ≤ maxDepth) ∧
      (∀ q, parseText p.layout = .ok q → q = p ∧ q.layout = p.layout) ∧
      (∀ fault, parseText p.layout = .error fault → fault.kind = .nestingTooDeep) ∧
      (p.signedProducts = 0 → parseText p.layout = .ok p) := by
  obtain ⟨hspelled, hunambiguous, -⟩ := parseText_sound h
  have hsigns := layoutFits_of_signedProducts_eq_zero h
  obtain ⟨ts, hscan, hfitting, htooDeep⟩ := Program.exists_parseTokens_layout hspelled hunambiguous
  rw [parseText_eq_parseTokens hscan, ← Program.layoutFits_iff]
  refine ⟨⟨ts, hscan⟩, ?_⟩
  cases hfits : p.layoutFits with
  | true =>
      have hparse := hfitting hfits
      simp [hparse]
  | false =>
      obtain ⟨fault, hfault, hkind⟩ := htooDeep hfits
      have hpositive : p.signedProducts ≠ 0 := fun hzero => by simp [hsigns hzero] at hfits
      simp [hfault, hkind, hpositive]

/-- The longest product behind a sign whose layout still fits. -/
theorem parseText_layout_negatedPower :
    parseText (negatedPowerText 125) = .ok (negatedPower 125) ∧
      parseText (negatedPower 125).layout = .ok (negatedPower 125) := by
  have haccepted := parseText_negatedPowerText (n := 125) (by decide)
  have hlevels : ∀ m ∈ (negatedPower 125).layoutLevels, m ≤ maxDepth := by
    rw [negatedPower_layoutLevels 124]
    decide
  exact ⟨haccepted, (parseText_layout_eq_ok_iff _ _ haccepted).2.1.2 hlevels⟩

/-- With one factor more the text is still accepted, but the layout of its program is refused. -/
theorem layout_negatedPower_refused :
    parseText (negatedPowerText 126) = .ok (negatedPower 126) ∧
      ∃ fault, parseText (negatedPower 126).layout = .error fault ∧
        fault.kind = .nestingTooDeep := by
  have haccepted := parseText_negatedPowerText (n := 126) (by decide)
  have hfits : (negatedPower 126).layoutFits = false := by
    rw [Program.layoutFits, negatedPower_layoutLevels 125]
    decide
  obtain ⟨hspelled, hunambiguous, -⟩ := parseText_sound haccepted
  obtain ⟨ts, hscan, -, htooDeep⟩ := Program.exists_parseTokens_layout hspelled hunambiguous
  rw [parseText_eq_parseTokens hscan]
  exact ⟨haccepted, htooDeep hfits⟩

end MiniPascal
