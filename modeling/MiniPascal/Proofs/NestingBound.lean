import MiniPascal.Proofs.Acceptance
import MiniPascal.Proofs.LayoutDerivation
import MiniPascal.Proofs.Occurrences

/-!
# The levels of nesting bound the tree

Levels are not taken for every node of a tree: a sign and a comparison take none, and
parentheses take one without leaving a node.  Between two levels that are taken there
can still be no more than these two nodes, so an expression is at most twice as high as
the levels that its derivation takes, and one more.
-/

namespace MiniPascal

namespace Expression

/-- How many nodes the longest path through an expression has. -/
def height : Expression → Nat
  | .number .. | .ident _ => 1
  | .signed _ operand => operand.height + 1
  | .binary _ lhs rhs => max lhs.height rhs.height + 1

/-- How many nodes an expression of a layer can have on a path besides two for each level: a sign is
in reach from a simple expression on, a comparison too from a whole one. -/
def Layer.slack : Layer → Nat
  | .factor | .term => 1
  | .simple => 2
  | .whole => 3

theorem Derives.height_le_innerLevels {layer : Layer} {e : Expression} {ts : List Terminal}
    (h : e.Derives layer ts) : e.height ≤ 2 * e.innerLevels ts + layer.slack := by
  induction h with
  | number kind numeral hnumeral => simp [height, Layer.slack]
  | ident name => simp [height, Layer.slack]
  | @parens e ts he ih =>
      -- the level of the parentheses pays for a sign and a comparison inside
      rw [innerLevels_parens, levels]
      simp only [Layer.slack] at ih ⊢
      omega
  | ofFactor he ih | ofTerm he ih | ofSimple he ih =>
      simp only [Layer.slack] at ih ⊢
      omega
  | @signed sign t e ts ht he ih =>
      rw [innerLevels_signed ht]
      simp only [height, Layer.slack] at ih ⊢
      omega
  | product hop ht hl hr ihl ihr =>
      rw [innerLevels_binary ht, BinaryOperator.isRelational_of_isMultiplicative hop]
      simp only [height, Layer.slack, Bool.false_eq_true, if_false] at ihl ihr ⊢
      omega
  | sum hop ht hl hr ihl ihr =>
      rw [innerLevels_binary ht, BinaryOperator.isRelational_of_isAdditive hop]
      simp only [height, Layer.slack, Bool.false_eq_true, if_false] at ihl ihr ⊢
      omega
  | comparison hop ht hl hr ihl ihr =>
      rw [innerLevels_binary ht, hop]
      simp only [height, Layer.slack, if_true] at ihl ihr ⊢
      omega

/-- An expression is at most twice as high as the levels that it takes, and one more. -/
theorem Derives.height_le_levels {e : Expression} {ts : List Terminal} (h : e.Derives .whole ts) :
    e.height ≤ 2 * e.levels ts + 1 := by
  have hheight := h.height_le_innerLevels
  simp only [Layer.slack] at hheight
  simp only [levels]
  omega

end Expression

namespace Statement

mutual

/-- How many nodes the longest path through a statement has. -/
def height : Statement → Nat
  | .assign _ value => value.height + 1
  | .declare _ => 1
  | .compound ss => heightAll ss + 1
  | .ifThen condition branch => max condition.height branch.height + 1
  | .ifThenElse condition branch alternative =>
      max condition.height (max branch.height alternative.height) + 1
  | .whileDo condition body => max condition.height body.height + 1

/-- The greatest `height` in a list. -/
def heightAll : List Statement → Nat
  | [] => 0
  | s :: ss => max s.height (heightAll ss)

end

theorem height_le_heightAll {s : Statement} {ss : List Statement} (h : s ∈ ss) :
    s.height ≤ heightAll ss := by
  induction ss with
  | nil => exact absurd h List.not_mem_nil
  | cons t ss ih =>
      rw [heightAll]
      rcases List.mem_cons.1 h with rfl | h
      · exact Nat.le_max_left _ _
      · exact Nat.le_trans (ih h) (Nat.le_max_right _ _)

/-- What a derivation inside a statement reaches is reached one level higher. -/
theorem add_le_of_inner {ms ns : List Nat} {depth levels : Nat}
    (hms : ∀ m ∈ ms, 1 + m ∈ ns) (h : ∀ n ∈ ns, depth + n ≤ levels) :
    ∀ m ∈ ms, depth + 1 + m ≤ levels := by
  intro m hm
  have := h _ (hms m hm)
  omega

mutual

/-- A statement that reaches no more levels than there are below `depth` of them is at most twice as
high. -/
theorem Derives.height_le {s : Statement} {ts : List Terminal} {ns : List Nat}
    (h : s.Derives ts ns) {depth levels : Nat} (hfits : ∀ n ∈ ns, depth + n ≤ levels) :
    s.height + 2 * depth ≤ 2 * levels := by
  have hone := hfits 1 h.one_mem
  cases h with
  | @assign target t value ts ht hvalue =>
      have hheight := hvalue.height_le_levels
      have hlevels := hfits (1 + value.levels ts) (by simp)
      rw [height]
      omega
  | declare hne hnamed =>
      rw [height]
      omega
  | compound hss =>
      have hheight := hss.heightAll_le (add_le_of_inner (by simp +contextual) hfits) hone
      rw [height]
      omega
  | @ifThen condition branch ts us ns hcondition hbranch
  | @whileDo condition branch ts us ns hcondition hbranch =>
      have hheight := hcondition.height_le_levels
      have hlevels := hfits (1 + condition.levels ts) (by simp)
      have hbranch' := hbranch.height_le (add_le_of_inner (by simp +contextual) hfits)
      rw [height]
      omega
  | @ifThenElse condition branch alternative ts us vs ns ms hcondition hbranch halternative =>
      have hheight := hcondition.height_le_levels
      have hlevels := hfits (1 + condition.levels ts) (by simp)
      have hbranch' := hbranch.height_le (add_le_of_inner (by simp +contextual) hfits)
      have halternative' := halternative.height_le (add_le_of_inner (by simp +contextual) hfits)
      rw [height]
      omega

/-- `Derives.height_le` for the statements of a list. -/
theorem DerivesAll.heightAll_le {ss : List Statement} {ts : List Terminal} {ns : List Nat}
    (h : DerivesAll ss ts ns) {depth levels : Nat} (hfits : ∀ n ∈ ns, depth + n ≤ levels)
    (hdepth : depth ≤ levels) : heightAll ss + 2 * depth ≤ 2 * levels := by
  cases h with
  | nil =>
      rw [heightAll]
      omega
  | cons hs hss =>
      have hfirst := hs.height_le fun n hn => hfits n (List.mem_append_left _ hn)
      have hothers := hss.heightAll_le (fun n hn => hfits n (List.mem_append_right _ hn)) hdepth
      rw [heightAll]
      omega

end

/-! ### Statements inside a program -/

theorem DerivesAll.derives_of_mem {s : Statement} {ss : List Statement} {ts : List Terminal}
    {ns : List Nat} (h : DerivesAll ss ts ns) (hs : s ∈ ss) :
    ∃ us ms, s.Derives us ms ∧ ∀ m ∈ ms, m ∈ ns := by
  induction ss generalizing ts ns with
  | nil => exact absurd hs List.not_mem_nil
  | cons first others ih =>
      cases h with
      | cons hfirst hothers =>
          rcases List.mem_cons.1 hs with rfl | hs
          · exact ⟨_, _, hfirst, fun m hm => List.mem_append_left _ hm⟩
          · obtain ⟨us, ms, hderives, hms⟩ := ih hothers hs
            exact ⟨us, ms, hderives, fun m hm => List.mem_append_right _ (hms m hm)⟩

/-- A statement inside another one is derived too, and what it reaches is reached one level
higher. -/
theorem Derives.inner {s t : Statement} {ts : List Terminal} {ns : List Nat} (h : s.Derives ts ns)
    (ht : t ∈ s.inner) : ∃ us ms, t.Derives us ms ∧ ∀ m ∈ ms, 1 + m ∈ ns := by
  cases h with
  | assign _ _ | declare _ _ => exact absurd ht List.not_mem_nil
  | compound hss =>
      obtain ⟨us, ms, hderives, hms⟩ := hss.derives_of_mem ht
      exact ⟨us, ms, hderives, fun m hm => by simp [hms m hm]⟩
  | ifThen _ hbranch | whileDo _ hbranch =>
      obtain rfl := List.mem_singleton.1 ht
      exact ⟨_, _, hbranch, by simp +contextual⟩
  | ifThenElse _ hbranch halternative =>
      obtain rfl | rfl : t = _ ∨ t = _ := by simpa [Statement.inner] using ht
      · exact ⟨_, _, hbranch, by simp +contextual⟩
      · exact ⟨_, _, halternative, by simp +contextual⟩

/-- The expression of a statement is derived, and its last level is reached. -/
theorem Derives.root {s : Statement} {e : Expression} {ts : List Terminal} {ns : List Nat}
    (h : s.Derives ts ns) (he : s.root? = some e) :
    ∃ us, e.Derives .whole us ∧ 1 + e.levels us ∈ ns := by
  cases h with
  | assign _ hvalue =>
      obtain rfl := Option.some.inj he
      exact ⟨_, hvalue, by simp⟩
  | declare _ _ | compound _ => exact nomatch he
  | ifThen hcondition _ | whileDo hcondition _ | ifThenElse hcondition _ _ =>
      obtain rfl := Option.some.inj he
      exact ⟨_, hcondition, by simp⟩

end Statement

/-- A statement at some depth of a derived program is derived, and what it reaches is reached below
that depth. -/
theorem Program.HasStatement.derives {p : Program} {ts : List Terminal} {ns : List Nat}
    (hp : p.Derives ts ns) {depth : Nat} {s : Statement} (h : p.HasStatement depth s) :
    ∃ us ms, s.Derives us ms ∧ 0 < depth ∧ ∀ m ∈ ms, depth - 1 + m ∈ ns := by
  induction h with
  | body hs =>
      obtain ⟨us, hbody, -⟩ := hp.body
      obtain ⟨vs, ms, hderives, hms⟩ := hbody.derives_of_mem hs
      exact ⟨vs, ms, hderives, Nat.one_pos, by simpa using hms⟩
  | @inner depth s t _ ht ih =>
      obtain ⟨us, ms, hderives, hdepth, hms⟩ := ih
      obtain ⟨vs, ls, hinner, hls⟩ := hderives.inner ht
      refine ⟨vs, ls, hinner, Nat.succ_pos depth, fun l hl => ?_⟩
      have hmem := hms _ (hls l hl)
      have hlevel : depth + 1 - 1 + l = depth - 1 + (1 + l) := by omega
      rwa [hlevel]

/-- **The levels of nesting bound the tree.**  If some tokens are accepted, no statement of the
program stands deeper than there are levels, and the value or the condition of a statement is at
most twice as high as the levels that are left there, and one more.  So no path through the whole
tree has more than two nodes for each level. -/
theorem parseTokens_nesting_bounded (ts : List Token) (p : Program) (h : parseTokens ts = .ok p) :
    (∀ depth s, p.HasStatement depth s → depth ≤ maxDepth ∧
      ∀ e, s.root? = some e → e.height ≤ 2 * (maxDepth - depth) + 1) ∧
    ∀ s ∈ p.block.body, s.height ≤ 2 * maxDepth := by
  obtain ⟨-, ns, hderives, hfits⟩ := exists_derives_of_parseTokens h
  constructor
  · intro depth s hs
    obtain ⟨us, ms, hs, hdepth, hms⟩ := hs.derives hderives
    have hone := hfits _ (hms 1 hs.one_mem)
    refine ⟨by omega, fun e he => ?_⟩
    obtain ⟨vs, hroot, hlevels⟩ := hs.root he
    have hheight := hroot.height_le_levels
    have hlast := hfits _ (hms _ hlevels)
    omega
  · intro s hs
    obtain ⟨us, hbody, -⟩ := hderives.body
    have hheight : Statement.heightAll p.block.body + 2 * 0 ≤ 2 * maxDepth :=
      hbody.heightAll_le (by simpa using hfits) (Nat.zero_le _)
    exact Nat.le_trans (Statement.height_le_heightAll hs) hheight

/-! ### A tree as high as can be -/

/-- Comparisons behind a sign, each but the first around the one before it. -/
def spiral : Nat → Expression
  | 0 => .binary .lt (.signed .minus (.ident "a")) (.ident "a")
  | n + 1 => .binary .lt (.signed .minus (spiral n)) (.ident "a")

/-- The terminals of a spiral: every comparison behind a sign stands in parentheses. -/
def spiralTerminals : Nat → List Terminal
  | 0 => .operator .sub :: [.name "a"] ++ .operator .lt :: [.name "a"]
  | n + 1 =>
      .operator .sub :: .symbol "(" :: (spiralTerminals n ++ [.symbol ")"]) ++
        .operator .lt :: [.name "a"]

/-- A program that assigns a spiral. -/
def spiralProgram (n : Nat) : Program :=
  ⟨"P", ⟨[], [.assign "x" (spiral n)]⟩⟩

/-- The terminals of a program that assigns a spiral. -/
def spiralProgramTerminals (n : Nat) : List Terminal :=
  [.word "program", .name "P", .symbol ";", .word "begin", .name "x", .becomes] ++
    (spiralTerminals n ++ [.symbol ";", .word "end", .symbol "."])

/-- The tokens of a program that assigns a spiral; their places do not matter. -/
def spiralTokens (n : Nat) : List Token :=
  (spiralProgramTerminals n).map fun t => ⟨t.category, t.lexeme, 1, 1⟩

theorem spiral_height (n : Nat) : (spiral n).height = 2 * n + 3 := by
  induction n with
  | zero => rfl
  | succ n ih =>
      simp only [spiral, Expression.height, ih]
      omega

theorem spiral_derives (n : Nat) : (spiral n).Derives .whole (spiralTerminals n) ∧
    (spiral n).innerLevels (spiralTerminals n) = n := by
  have hname : (Expression.ident "a").Derives .term [.name "a"] := .ofFactor (.ident "a")
  have hlt := Terminal.operator_denotes .lt
  have hsub : (Terminal.operator .sub).Denotes Sign.minus.operator := Terminal.operator_denotes .sub
  -- a sign before any operand, compared with a name
  have hstep {e : Expression} {ts : List Terminal} (he : e.Derives .term ts) :
      (Expression.binary .lt (.signed .minus e) (.ident "a")).Derives .whole
          (.operator .sub :: ts ++ .operator .lt :: [.name "a"]) ∧
        (Expression.binary .lt (.signed .minus e) (.ident "a")).innerLevels
          (.operator .sub :: ts ++ .operator .lt :: [.name "a"]) = e.innerLevels ts := by
    refine ⟨.comparison rfl hlt (.signed hsub he) (.ofTerm hname), ?_⟩
    rw [Expression.innerLevels_binary hlt, Expression.innerLevels_signed hsub,
      Expression.innerLevels_ident]
    rfl
  induction n with
  | zero =>
      obtain ⟨hderives, hlevels⟩ := hstep hname
      exact ⟨hderives, hlevels.trans (Expression.innerLevels_ident "a")⟩
  | succ n ih =>
      obtain ⟨hderives, hlevels⟩ := hstep (.ofFactor (.parens ih.1))
      refine ⟨hderives, hlevels.trans ?_⟩
      rw [Expression.innerLevels_parens, Expression.levels, ih.2]

theorem parseTokens_spiralTokens {n : Nat} (hn : n + 2 ≤ maxDepth) :
    parseTokens (spiralTokens n) = .ok (spiralProgram n) := by
  obtain ⟨hspiral, hlevels⟩ := spiral_derives n
  have hbecomes : Terminal.becomes.category = .assignmentOperator := rfl
  have hassign : (Statement.assign "x" (spiral n)).Derives _ _ := .assign hbecomes hspiral
  have hbody : Statement.DerivesAll (spiralProgram n).block.body _ _ := .cons hassign .nil
  have hterminals : (spiralTokens n).map Token.terminal = spiralProgramTerminals n := by
    simp [spiralTokens, Token.terminal, Function.comp_def]
  refine parseTokens_of_derives ⟨fun d hd => absurd hd List.not_mem_nil, _, hbody, ?_⟩ rfl ?_
  · rw [hterminals]
    simp [spiralProgramTerminals, spiralProgram, Declaration.terminalsAll]
  · have hlast : 1 + (spiral n).levels (spiralTerminals n) ≤ maxDepth := by
      rw [Expression.levels, hlevels]
      omega
    have hone : 1 ≤ maxDepth := by decide
    simp [hlast, hone]

/-- The highest spiral that is accepted is as high as its levels allow. -/
theorem parseTokens_nesting_bounded_spiral :
    parseTokens (spiralTokens 126) = .ok (spiralProgram 126) ∧
      (1 ≤ maxDepth ∧ ∀ e, (Statement.assign "x" (spiral 126)).root? = some e →
        e.height ≤ 2 * (maxDepth - 1) + 1) ∧
      (spiral 126).height = 2 * (maxDepth - 1) + 1 := by
  have haccepted := parseTokens_spiralTokens (n := 126) (by decide)
  obtain ⟨hbound, -⟩ := parseTokens_nesting_bounded _ _ haccepted
  exact ⟨haccepted, hbound 1 _ (.body (List.mem_singleton.2 rfl)), spiral_height 126⟩

end MiniPascal
