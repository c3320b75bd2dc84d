import MiniPascal.Program.Basic
import MiniPascal.Token.Piece

/-!
# Shapes of programs

Two properties of a tree decide whether it can be written down so that it reads
back as itself.  Its names and numerals have to be lexemes of their class, and no
part of it may be drawn into another one: an alternative goes to the nearest open
conditional, and a run of declarations takes every declaration that follows.
-/

namespace MiniPascal

/-- Letters, digits and underscores, of which the first is no digit. -/
def isWord (text : String) : Bool :=
  text.toList.head?.any (fun c => !c.isDigit) && text.toList.all isWordChar

/-- A word that is not reserved. -/
def isName (text : String) : Bool :=
  isWord text && Category.ofWord text == .identifier

/-- One or more digits. -/
def isIntegerNumeral (text : String) : Bool :=
  !text.toList.isEmpty && text.toList.all Char.isDigit

/-- One or more digits, a point, and any number of digits. -/
def isRealNumeral (text : String) : Bool :=
  text.toList.head?.any Char.isDigit &&
    match text.toList.dropWhile Char.isDigit with
    | '.' :: fraction => fraction.all Char.isDigit
    | _ => false

theorem isIntegerNumeral_iff {text : String} :
    isIntegerNumeral text = true ↔ text.toList ≠ [] ∧ ∀ c ∈ text.toList, c.isDigit = true := by
  simp [isIntegerNumeral]

theorem isRealNumeral_iff {text : String} :
    isRealNumeral text = true ↔
      ∃ whole fraction, text.toList = whole ++ '.' :: fraction ∧ whole ≠ [] ∧
        (∀ c ∈ whole, c.isDigit = true) ∧ ∀ c ∈ fraction, c.isDigit = true := by
  constructor
  · intro h
    unfold isRealNumeral at h
    obtain ⟨hhead, hrest⟩ := Bool.and_eq_true_iff.1 h
    have hsplit := List.takeWhile_append_dropWhile (p := Char.isDigit) (l := text.toList)
    split at hrest
    · next fraction hfraction =>
        rw [hfraction] at hsplit
        refine ⟨_, fraction, hsplit.symm, ?_, ?_, by simpa using hrest⟩
        · cases hcs : text.toList with
          | nil => simp [hcs] at hhead
          | cons c cs =>
              have hc : c.isDigit = true := by simpa [hcs] using hhead
              simp [hc]
        · intro c hc
          exact List.all_eq_true.1 List.all_takeWhile c hc
    · simp at hrest
  · rintro ⟨whole, fraction, htext, hne, hwhole, hfraction⟩
    have hdrop : text.toList.dropWhile Char.isDigit = '.' :: fraction := by
      rw [htext, List.dropWhile_append_of_pos hwhole]
      rfl
    cases whole with
    | nil => exact absurd rfl hne
    | cons c cs =>
        have hc : c.isDigit = true := hwhole c (by simp)
        simp only [isRealNumeral, hdrop]
        simpa [htext, hc] using hfraction

/-- The numerals of a kind of number. -/
def NumberKind.admits : NumberKind → String → Bool
  | .integer => isIntegerNumeral
  | .real => isRealNumeral

/-- The numerals of both kinds are numerals. -/
theorem isNumeral_of_admits {kind : NumberKind} {numeral : String} (h : kind.admits numeral = true) :
    isNumeral numeral = true := by
  have hpoint : ∀ cs : List Char, (∀ c ∈ cs, c.isDigit = true) → cs.count '.' = 0 := by
    intro cs hcs
    refine List.count_eq_zero.2 fun hmem => ?_
    exact absurd (hcs '.' hmem) (by decide)
  cases kind with
  | integer =>
      obtain ⟨hne, hdigits⟩ := isIntegerNumeral_iff.1 h
      have hall : ∀ c ∈ numeral.toList, c.isDigit = true ∨ c = '.' :=
        fun c hc => .inl (hdigits c hc)
      have hcount := hpoint numeral.toList hdigits
      simpa [isNumeral, hcount] using ⟨by simpa using hne, hall⟩
  | real =>
      obtain ⟨whole, fraction, htext, hne, hwhole, hfraction⟩ := isRealNumeral_iff.1 h
      have hcount : numeral.toList.count '.' = 1 := by
        simp [htext, List.count_append, hpoint whole hwhole, hpoint fraction hfraction]
      have hall : ∀ c ∈ numeral.toList, c.isDigit = true ∨ c = '.' := by
        intro c hc
        rw [htext, List.mem_append, List.mem_cons] at hc
        rcases hc with hc | hc | hc
        · exact .inl (hwhole c hc)
        · exact .inr hc
        · exact .inl (hfraction c hc)
      have hnonempty : numeral.toList ≠ [] := by simp [htext]
      simpa [isNumeral, hcount] using ⟨by simpa using hnonempty, hall⟩

/-- A name holds no other characters than those of words. -/
theorem notMem_of_isName {name : String} (h : isName name = true) {c : Char}
    (hc : isWordChar c = false) : c ∉ name.toList := by
  obtain ⟨hword, -⟩ := Bool.and_eq_true_iff.1 h
  obtain ⟨-, hall⟩ := Bool.and_eq_true_iff.1 hword
  intro hmem
  have hyes := List.all_eq_true.1 hall c hmem
  simp [hc] at hyes

/-- A numeral holds no other characters than digits and points. -/
theorem notMem_of_admits {kind : NumberKind} {numeral : String} (h : kind.admits numeral = true)
    {c : Char} (hdigit : c.isDigit = false) (hpoint : c ≠ '.') : c ∉ numeral.toList := by
  have hnumeral := isNumeral_of_admits h
  simp only [isNumeral, Bool.and_eq_true, List.all_eq_true] at hnumeral
  intro hmem
  have hyes := hnumeral.1.2 c hmem
  simp [hdigit, hpoint] at hyes

/-- Every leaf is a name or a numeral of its kind. -/
def Expression.isWellSpelled : Expression → Bool
  | .number kind numeral => kind.admits numeral
  | .ident name => isName name
  | .signed _ operand => operand.isWellSpelled
  | .binary _ lhs rhs => lhs.isWellSpelled && rhs.isWellSpelled

/-- There are names to declare, and they are names. -/
def Declaration.isWellSpelled (d : Declaration) : Bool :=
  !d.names.isEmpty && d.names.all isName

namespace Statement

mutual

/-- Every name and numeral is one, and there is something in every declaration. -/
def isWellSpelled : Statement → Bool
  | .assign target value => isName target && value.isWellSpelled
  | .declare ds => !ds.isEmpty && ds.all Declaration.isWellSpelled
  | .compound ss => areWellSpelled ss
  | .ifThen condition branch => condition.isWellSpelled && branch.isWellSpelled
  | .ifThenElse condition branch alternative =>
      condition.isWellSpelled && branch.isWellSpelled && alternative.isWellSpelled
  | .whileDo condition body => condition.isWellSpelled && body.isWellSpelled

/-- `isWellSpelled` of every statement of a list. -/
def areWellSpelled : List Statement → Bool
  | [] => true
  | s :: ss => s.isWellSpelled && areWellSpelled ss

end

/-- The conditional at the right end could still take an alternative. -/
def endsOpen : Statement → Bool
  | .ifThen .. => true
  | .ifThenElse _ _ alternative => alternative.endsOpen
  | .whileDo _ body => body.endsOpen
  | _ => false

/-- The run of declarations at the right end could still take another one. -/
def endsInDeclarations : Statement → Bool
  | .declare _ => true
  | .ifThen _ branch => branch.endsInDeclarations
  | .ifThenElse _ _ alternative => alternative.endsInDeclarations
  | .whileDo _ body => body.endsInDeclarations
  | _ => false

/-- The first statement of a list is a run of declarations. -/
def startsWithDeclarations : List Statement → Bool
  | .declare _ :: _ => true
  | _ => false

mutual

/-- No alternative belongs to an inner conditional, and no two runs of declarations meet. -/
def isUnambiguous : Statement → Bool
  | .assign .. | .declare _ => true
  | .compound ss => areUnambiguous ss
  | .ifThen _ branch => branch.isUnambiguous
  | .ifThenElse _ branch alternative =>
      !branch.endsOpen && branch.isUnambiguous && alternative.isUnambiguous
  | .whileDo _ body => body.isUnambiguous

/-- `isUnambiguous` of every statement of a list, and of each with the next one. -/
def areUnambiguous : List Statement → Bool
  | [] => true
  | s :: ss =>
      s.isUnambiguous && !(s.endsInDeclarations && startsWithDeclarations ss) &&
        areUnambiguous ss

end

end Statement

namespace Program

/-- Every name and numeral of the program is one, and no declaration is empty. -/
def isWellSpelled (p : Program) : Bool :=
  isName p.name && p.block.declarations.all Declaration.isWellSpelled &&
    Statement.areWellSpelled p.block.body

/-- No statement of the program would be read as a part of another one. -/
def isUnambiguous (p : Program) : Bool :=
  Statement.areUnambiguous p.block.body

end Program

end MiniPascal
