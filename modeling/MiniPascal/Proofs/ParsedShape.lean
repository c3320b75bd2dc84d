import MiniPascal.Proofs.Occurrences
import MiniPascal.Proofs.ParsedLayout

/-!
# The shape of a parsed program

Whoever lays out or walks through a parsed program relies on more than its type says:
its names and numerals are lexemes, nothing that is declared is empty, and no statement
would draw a part of the statement behind it into itself.
-/

namespace MiniPascal

/-- The text is scanned to a single token, with this terminal. -/
def ScansTo (text : String) (terminal : Terminal) : Prop :=
  ∃ t, scanText text = .ok [t] ∧ t.terminal = terminal

/-- What holds of the parts of a program that was parsed. -/
structure Program.IsShaped (p : Program) : Prop where
  /-- Every name is a word that is not reserved. -/
  names : ∀ name, p.HasName name → ScansTo name (.name name)
  /-- Every numeral is a number of its kind. -/
  numerals : ∀ kind numeral, p.HasExpression (.number kind numeral) →
    ScansTo numeral (.number kind numeral)
  /-- The real numbers are those with a point. -/
  points : ∀ kind numeral, p.HasExpression (.number kind numeral) →
    (kind = .real ↔ '.' ∈ numeral.toList)
  /-- Every declaration has a name. -/
  declarations : ∀ d, p.HasDeclaration d → d.names ≠ []
  /-- Every run of declarations has a declaration. -/
  runs : ∀ depth ds, p.HasStatement depth (.declare ds) → ds ≠ []
  /-- No run of declarations stands behind a statement that would have taken it. -/
  lists : ∀ before s ds behind, p.HasStatements (before ++ s :: .declare ds :: behind) →
    s.endsInDeclarations = false
  /-- No alternative stands behind a branch that would have taken it. -/
  branches : ∀ depth condition branch alternative,
    p.HasStatement depth (.ifThenElse condition branch alternative) → branch.endsOpen = false

/-! ### Lexemes -/

theorem scansTo_of_scans {text : String} {terminal : Terminal}
    (h : Scans (text.toList ++ []) [terminal]) : ScansTo text terminal := by
  rw [List.append_nil] at h
  obtain ⟨tokens, hscan, htokens⟩ := h.scanText_eq_ok
  obtain ⟨t, rfl, ht⟩ := List.map_eq_singleton_iff.1 htokens
  exact ⟨t, hscan, ht⟩

theorem scansTo_name {name : String} (h : isName name = true) : ScansTo name (.name name) :=
  scansTo_of_scans (Scans.nil.name h rfl)

theorem scansTo_number {kind : NumberKind} {numeral : String} (h : kind.admits numeral = true) :
    ScansTo numeral (.number kind numeral) :=
  scansTo_of_scans (Scans.nil.number h rfl)

/-- The numerals of real numbers have a point, those of integers do not. -/
theorem NumberKind.eq_real_iff_of_admits {kind : NumberKind} {numeral : String}
    (h : kind.admits numeral = true) : kind = .real ↔ '.' ∈ numeral.toList := by
  cases kind with
  | integer =>
      obtain ⟨-, hdigits⟩ := isIntegerNumeral_iff.1 h
      have hpoint : '.' ∉ numeral.toList := fun hmem => absurd (hdigits '.' hmem) (by decide)
      simp [hpoint]
  | real =>
      obtain ⟨whole, fraction, htext, -⟩ := isRealNumeral_iff.1 h
      simp [htext]

/-! ### Spelling of the parts -/

namespace Statement

theorem areWellSpelled_iff {ss : List Statement} :
    areWellSpelled ss = true ↔ ∀ s ∈ ss, s.isWellSpelled = true := by
  induction ss with
  | nil => simp [areWellSpelled]
  | cons s ss ih => simp [areWellSpelled, ih]

theorem isWellSpelled_of_mem_inner {s t : Statement} (h : s.isWellSpelled = true)
    (ht : t ∈ s.inner) : t.isWellSpelled = true := by
  cases s with
  | assign | declare => exact absurd ht List.not_mem_nil
  | compound ss => exact areWellSpelled_iff.1 h t ht
  | ifThen condition branch | whileDo condition branch =>
      obtain rfl := List.mem_singleton.1 ht
      exact (Bool.and_eq_true_iff.1 h).2
  | ifThenElse condition branch alternative =>
      obtain ⟨hfirst, halternative⟩ := Bool.and_eq_true_iff.1 h
      obtain rfl | hlast := List.mem_cons.1 ht
      · exact (Bool.and_eq_true_iff.1 hfirst).2
      · obtain rfl := List.mem_singleton.1 hlast
        exact halternative

theorem isWellSpelled_of_root? {s : Statement} {e : Expression} (h : s.isWellSpelled = true)
    (he : s.root? = some e) : e.isWellSpelled = true := by
  cases s with
  | declare | compound => simp [root?] at he
  | assign target value =>
      obtain rfl := Option.some.inj he
      exact (Bool.and_eq_true_iff.1 h).2
  | ifThen condition branch | whileDo condition branch =>
      obtain rfl := Option.some.inj he
      exact (Bool.and_eq_true_iff.1 h).1
  | ifThenElse condition branch alternative =>
      obtain rfl := Option.some.inj he
      exact (Bool.and_eq_true_iff.1 (Bool.and_eq_true_iff.1 h).1).1

/-- Of statements that are unambiguous, each one is, and none takes what follows it. -/
theorem areUnambiguous_append_cons {before behind : List Statement} {s : Statement}
    (h : areUnambiguous (before ++ s :: behind) = true) :
    s.isUnambiguous = true ∧ (s.endsInDeclarations && startsWithDeclarations behind) = false := by
  induction before with
  | nil =>
      obtain ⟨hfirst, -⟩ := Bool.and_eq_true_iff.1 h
      obtain ⟨hs, hmeet⟩ := Bool.and_eq_true_iff.1 hfirst
      exact ⟨hs, by simpa only [Bool.not_eq_true'] using hmeet⟩
  | cons t before ih => exact ih (Bool.and_eq_true_iff.1 h).2

theorem isUnambiguous_of_mem {ss : List Statement} {s : Statement}
    (h : areUnambiguous ss = true) (hs : s ∈ ss) : s.isUnambiguous = true := by
  obtain ⟨before, behind, rfl⟩ := List.append_of_mem hs
  exact (areUnambiguous_append_cons h).1

theorem isUnambiguous_of_mem_inner {s t : Statement} (h : s.isUnambiguous = true)
    (ht : t ∈ s.inner) : t.isUnambiguous = true := by
  cases s with
  | assign | declare => exact absurd ht List.not_mem_nil
  | compound ss => exact isUnambiguous_of_mem h ht
  | ifThen condition branch | whileDo condition branch =>
      obtain rfl := List.mem_singleton.1 ht
      exact h
  | ifThenElse condition branch alternative =>
      obtain ⟨hfirst, halternative⟩ := Bool.and_eq_true_iff.1 h
      obtain rfl | hlast := List.mem_cons.1 ht
      · exact (Bool.and_eq_true_iff.1 hfirst).2
      · obtain rfl := List.mem_singleton.1 hlast
        exact halternative

end Statement

namespace Program

variable {p : Program}

section WellSpelled

variable (h : p.isWellSpelled = true)

include h

theorem HasStatement.isWellSpelled {depth : Nat} {s : Statement} (hs : p.HasStatement depth s) :
    s.isWellSpelled = true := by
  obtain ⟨-, hbody⟩ := Bool.and_eq_true_iff.1 h
  induction hs with
  | body hs => exact Statement.areWellSpelled_iff.1 hbody _ hs
  | inner hs ht ih => exact Statement.isWellSpelled_of_mem_inner ih ht

theorem HasExpression.isWellSpelled {e : Expression} (he : p.HasExpression e) :
    e.isWellSpelled = true := by
  induction he with
  | root hs he => exact Statement.isWellSpelled_of_root? (hs.isWellSpelled h) he
  | operand he ih => exact ih
  | lhs he ih => exact (Bool.and_eq_true_iff.1 ih).1
  | rhs he ih => exact (Bool.and_eq_true_iff.1 ih).2

theorem HasDeclaration.isWellSpelled {d : Declaration} (hd : p.HasDeclaration d) :
    d.isWellSpelled = true := by
  obtain ⟨hheader, -⟩ := Bool.and_eq_true_iff.1 h
  obtain hd | ⟨depth, ds, hs, hd⟩ := hd
  · exact List.all_eq_true.1 (Bool.and_eq_true_iff.1 hheader).2 d hd
  · exact List.all_eq_true.1 (Bool.and_eq_true_iff.1 (hs.isWellSpelled h)).2 d hd

theorem HasName.isName {name : String} (hname : p.HasName name) : isName name = true := by
  cases hname with
  | program =>
      obtain ⟨hheader, -⟩ := Bool.and_eq_true_iff.1 h
      exact (Bool.and_eq_true_iff.1 hheader).1
  | declared hd hname =>
      exact List.all_eq_true.1 (Bool.and_eq_true_iff.1 (hd.isWellSpelled h)).2 name hname
  | target hs => exact (Bool.and_eq_true_iff.1 (hs.isWellSpelled h)).1
  | used he => exact he.isWellSpelled h

end WellSpelled

section Unambiguous

variable (h : p.isUnambiguous = true)

include h

theorem HasStatement.isUnambiguous {depth : Nat} {s : Statement} (hs : p.HasStatement depth s) :
    s.isUnambiguous = true := by
  induction hs with
  | body hs => exact Statement.isUnambiguous_of_mem h hs
  | inner hs ht ih => exact Statement.isUnambiguous_of_mem_inner ih ht

theorem HasStatements.areUnambiguous {ss : List Statement} (hss : p.HasStatements ss) :
    Statement.areUnambiguous ss = true := by
  obtain rfl | ⟨depth, hs⟩ := hss
  · exact h
  · exact hs.isUnambiguous h

end Unambiguous

/-- A well-spelled and unambiguous program has the shape of a parsed one. -/
theorem isShaped (hspelled : p.isWellSpelled = true) (hunambiguous : p.isUnambiguous = true) :
    p.IsShaped where
  names name hname := scansTo_name (hname.isName hspelled)
  numerals kind numeral he := scansTo_number (he.isWellSpelled hspelled)
  points kind numeral he := NumberKind.eq_real_iff_of_admits (he.isWellSpelled hspelled)
  declarations d hd := by
    obtain ⟨hne, -⟩ := Bool.and_eq_true_iff.1 (hd.isWellSpelled hspelled)
    simpa using hne
  runs depth ds hs := by
    obtain ⟨hne, -⟩ := Bool.and_eq_true_iff.1 (hs.isWellSpelled hspelled)
    simpa using hne
  lists before s ds behind hss := by
    have hmeet := (Statement.areUnambiguous_append_cons (hss.areUnambiguous hunambiguous)).2
    simpa [Statement.startsWithDeclarations] using hmeet
  branches depth condition branch alternative hs := by
    obtain ⟨hfirst, -⟩ := Bool.and_eq_true_iff.1 (hs.isUnambiguous hunambiguous)
    obtain ⟨hopen, -⟩ := Bool.and_eq_true_iff.1 hfirst
    simpa using hopen

end Program

/-- **The shape of a parsed program.**  Whatever text it was parsed from, its names and numerals are
lexemes of their class, nothing that it declares is empty, and nothing in it would be drawn into
the statement in front of it. -/
theorem parseText_isShaped {text : String} {p : Program} (h : parseText text = .ok p) :
    p.IsShaped := by
  obtain ⟨hspelled, hunambiguous, -⟩ := parseText_sound h
  exact Program.isShaped hspelled hunambiguous

/-- Conditionals in a branch and in an alternative, around runs of declarations. -/
def branchingProgram : Program where
  name := "P"
  block :=
    { declarations := [⟨["x", "y_1"], .real⟩]
      body :=
        [.ifThenElse (.binary .lt (.ident "x") (.number .real "2."))
          (.ifThenElse (.ident "x") (.declare [⟨["z"], .integer⟩, ⟨["v", "w"], .byte⟩])
            (.whileDo (.ident "z") (.assign "z" (.number .integer "7"))))
          (.ifThen (.ident "y_1") (.compound [.declare [⟨["u"], .char⟩]])),
         .declare [⟨["t"], .string⟩]] }

theorem parseText_isShaped_branchingProgram :
    parseText branchingProgram.layout = .ok branchingProgram ∧ branchingProgram.IsShaped := by
  have hspelled : branchingProgram.isWellSpelled = true := by decide
  have hunambiguous : branchingProgram.isUnambiguous = true := by decide
  have hfits : branchingProgram.layoutFits = true := by decide
  obtain ⟨ts, hscan, hparse, -⟩ := Program.exists_parseTokens_layout hspelled hunambiguous
  have haccepted : parseText branchingProgram.layout = .ok branchingProgram :=
    (parseText_eq_parseTokens hscan).trans (hparse hfits)
  exact ⟨haccepted, parseText_isShaped haccepted⟩

end MiniPascal
