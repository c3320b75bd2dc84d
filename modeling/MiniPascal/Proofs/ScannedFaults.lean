import Mathlib.Data.List.Basic
import MiniPascal.Proofs.FaultPlaces
import MiniPascal.Proofs.LexemeReading
import MiniPascal.Proofs.LongestMatch
import MiniPascal.Proofs.ViablePrefixes

/-!
# Faults of scanned tokens

The parser checks more than scanned tokens need: numbers are checked again, type names are
looked up again, and a statement is chosen by the word that it then expects.  The checks
agree, so the faults that only the second one could find are never raised on the tokens of
a scan (`program_consistent`).
-/

namespace MiniPascal

/-- The kinds of fault that are raised by the scan, or by a check that scanned tokens pass. -/
def idleKinds : List FaultKind :=
  [.unknownCharacter, .stringNotClosed, .invalidNumber, .expectedIf, .expectedWhile]

/-- A kind of fault that may be raised anywhere. -/
def FaultKind.isPlain (kind : FaultKind) : Bool :=
  kind != .expectedType && kind ∉ idleKinds

/-- A fault that scanned tokens can raise: where a type was expected, no type is quoted. -/
structure Fault.IsRaised (fault : Fault) : Prop where
  kind : fault.kind ∉ idleKinds
  type : fault.kind = .expectedType → ∃ lexeme, fault.lexeme = some lexeme ∧ lexeme ∉ reservedTypes

theorem Fault.isRaised_of_isPlain {fault : Fault} (h : fault.kind.isPlain = true) :
    fault.IsRaised := by
  obtain ⟨htype, hidle⟩ := Bool.and_eq_true_iff.1 h
  exact ⟨of_decide_eq_true hidle, fun hkind => absurd hkind (by simpa using htype)⟩

/-- Every token to come has the shape of its category. -/
def Progress.IsScanned (s : Progress) : Prop :=
  ∀ t ∈ s.rest, t.terminal.isSpelled = true

theorem Progress.IsScanned.of_head? {s : Progress} {t : Token} (hs : s.IsScanned)
    (hhead : s.rest.head? = some t) : t.terminal.isSpelled = true :=
  hs t (List.mem_of_head? hhead)

/-! ### What the scanner has checked -/

section Checked

variable {t : Token} (ht : t.terminal.isSpelled = true)

include ht

/-- A number that was scanned passes the check of the parser. -/
theorem Token.isNumeral_of_isSpelled (hkind : t.kind = .number) : isNumeral t.lexeme = true := by
  obtain ⟨category, lexeme, line, column⟩ := t
  cases category with
  | integerNumber =>
      have hnumeral : NumberKind.integer.admits lexeme = true := ht
      exact isNumeral_of_admits hnumeral
  | realNumber =>
      have hnumeral : NumberKind.real.admits lexeme = true := ht
      exact isNumeral_of_admits hnumeral
  | _ => exact TokenKind.noConfusion hkind

theorem Token.mem_reservedTypes_of_isSpelled (hkind : t.kind = .reservedType) :
    t.lexeme ∈ reservedTypes := by
  obtain ⟨category, lexeme, line, column⟩ := t
  cases category with
  | reservedType => exact of_decide_eq_true ht
  | _ => exact TokenKind.noConfusion hkind

/-- The scanner and the parser know the same types. -/
theorem Token.notMem_reservedTypes_of_isSpelled
    (h : (if t.kind == .reservedType then TypeName.ofSpelling? t.lexeme else none) = none) :
    t.lexeme ∉ reservedTypes := by
  intro hmem
  have htype : t.terminal = ⟨.reservedType, t.lexeme⟩ :=
    Terminal.eq_of_lexeme_eq ht (decide_eq_true hmem) rfl
  have hkind : (t.kind == .reservedType) = true := by
    rw [Token.kind_eq, htype]
    rfl
  rw [if_pos hkind] at h
  have hknown : ∀ w ∈ reservedTypes, TypeName.ofSpelling? w ≠ none := by decide
  exact hknown _ hmem h

end Checked

namespace Parser

variable {α β : Type}

/-- The run from `s` leaves scanned tokens, and its fault is one that they can raise. -/
structure ConsistentAt (p : Parser α) (s : Progress) : Prop where
  scanned : (p s).2.IsScanned
  faults : ∀ fault, (p s).1 = .error fault → fault.IsRaised

/-- Every run on scanned tokens is consistent with the scan. -/
def Consistent (p : Parser α) : Prop :=
  ∀ s : Progress, s.IsScanned → p.ConsistentAt s

section Rules

variable {p : Parser α} {f : α → Parser β} {s : Progress} {kind : FaultKind}

/-- What only looks at the tokens to come leaves them as they are. -/
theorem ConsistentAt.of_unmoved (hs : s.IsScanned) (hrun : (p s).2 = s)
    (hfaults : ∀ fault, (p s).1 = .error fault → fault.IsRaised) : p.ConsistentAt s :=
  ⟨hrun.symm ▸ hs, hfaults⟩

theorem ConsistentAt.bind (hp : p.ConsistentAt s)
    (hf : ∀ a m, m.IsScanned → p s = (.ok a, m) → (f a).ConsistentAt m) :
    (p >>= f).ConsistentAt s := by
  rcases hrun : p s with ⟨answer, m⟩
  have hm : m.IsScanned := by simpa [hrun] using hp.scanned
  cases answer with
  | ok a =>
      have hnext := hf a m hm hrun
      constructor <;> rw [run_bind_of_ok hrun]
      · exact hnext.scanned
      · exact hnext.faults
  | error fault =>
      constructor <;> rw [run_bind_of_error hrun]
      · exact hm
      · intro found hfound
        obtain rfl := Except.error.inj hfound
        exact hp.faults fault (by rw [hrun])

namespace Consistent

/-- As `ConsistentAt.bind`, when it does not matter how the first part ended. -/
theorem next (hp : p.Consistent) (hf : ∀ a, (f a).Consistent) : (p >>= f).Consistent :=
  fun s hs => (hp s hs).bind fun a m hm _ => hf a m hm

theorem pure (a : α) : (pure a : Parser α).Consistent :=
  fun _ hs => .of_unmoved hs rfl (by simp)

/-- As `next`, when only the answer is changed. -/
theorem answer (hp : p.Consistent) (g : α → β) : (do return g (← p) : Parser β).Consistent :=
  hp.next fun a => .pure (g a)

theorem refuse (hkind : kind.isPlain = true) (t : Token) :
    (Parser.refuse kind t : Parser α).Consistent := by
  refine fun s hs => .of_unmoved hs rfl fun fault h => ?_
  obtain rfl := Except.error.inj h
  exact Fault.isRaised_of_isPlain hkind

theorem refuseDepth : (Parser.refuseDepth : Parser α).Consistent := by
  refine fun s hs => .of_unmoved hs rfl fun fault h => ?_
  obtain rfl := Except.error.inj h
  refine Fault.isRaised_of_isPlain ?_
  unfold Progress.tooDeep
  split
  · rfl
  · rw [Progress.exhausted_kind]
    rfl

theorem current (hkind : kind.isPlain = true) : (Parser.current kind).Consistent := by
  refine fun s hs => .of_unmoved hs (current_unmoved kind s) fun fault h => ?_
  unfold Parser.current at h
  split at h
  · simp at h
  · obtain rfl := Except.error.inj h
    exact Fault.isRaised_of_isPlain (by rwa [Progress.exhausted_kind])

theorem expect (hkind : kind.isPlain = true) {accepts : Token → Bool} :
    (Parser.expect accepts kind).Consistent := by
  refine (current hkind).next fun t => ?_
  split
  · exact .pure t
  · exact .refuse hkind t

theorem peek : Parser.peek.Consistent :=
  fun _ hs => .of_unmoved hs rfl (by simp [Parser.peek])

theorem advance : Parser.advance.Consistent := by
  intro s hs
  unfold Parser.advance
  constructor
  · split
    · next t ts hrest => exact fun u hu => hs u (hrest ▸ List.mem_cons_of_mem t hu)
    · exact hs
  · intro fault h
    split at h
    · simp at h
    · obtain rfl := Except.error.inj h
      exact Fault.isRaised_of_isPlain rfl

theorem advanceWithin (hkind : kind.isPlain = true) : (Parser.advanceWithin kind).Consistent := by
  refine (current hkind).next fun t => advance.next fun _ => peek.next fun following => ?_
  cases following with
  | some _ => exact .pure ()
  | none => exact .refuse hkind t

theorem take {accepts : Token → Bool} {f : Token → Parser β} (hkind : kind.isPlain = true)
    (hf : ∀ t, (f t).Consistent) :
    (do let t ← Parser.expect accepts kind; Parser.advance; f t).Consistent :=
  (expect hkind).next fun t => advance.next fun _ => hf t

theorem takeWithin {accepts : Token → Bool} {after : FaultKind} {f : Token → Parser β}
    (hkind : kind.isPlain = true) (hafter : after.isPlain = true) (hf : ∀ t, (f t).Consistent) :
    (do let t ← Parser.expect accepts kind; Parser.advanceWithin after; f t).Consistent :=
  (expect hkind).next fun t => (advanceWithin hafter).next fun _ => hf t

theorem isNext {accepts : Token → Bool} : (Parser.isNext accepts).Consistent :=
  peek.next fun following => by cases following <;> exact .pure _

theorem nextOperator {accepts : BinaryOperator → Bool} :
    (Parser.nextOperator accepts).Consistent := by
  refine peek.next fun following => ?_
  cases following with
  | none => exact .pure none
  | some t =>
      dsimp only
      split <;> exact .pure _

theorem descend : Parser.descend.Consistent := by
  intro s hs
  by_cases h : s.depth < maxDepth
  · have hrun := run_descend h
    exact ⟨by rwa [hrun], by simp [hrun]⟩
  · have hrun : Parser.descend s = Parser.refuseDepth s := if_neg h
    obtain ⟨hscanned, hfaults⟩ := refuseDepth (α := Unit) s hs
    exact ⟨by rwa [hrun], by rwa [hrun]⟩

theorem nested (hp : p.Consistent) : (Parser.nested p).Consistent := by
  intro s hs
  obtain ⟨hscanned, hfaults⟩ := descend s hs
  rcases hdescend : Parser.descend s with ⟨answer, m⟩
  rw [hdescend] at hscanned hfaults
  cases answer with
  | ok =>
      have hrun : Parser.nested p s =
          ((p m).1, ⟨(p m).2.rest, (p m).2.last, (p m).2.depth - 1⟩) := by
        simp only [Parser.nested, hdescend]
      obtain ⟨hscanned', hfaults'⟩ := hp m hscanned
      exact ⟨by rwa [hrun], by rwa [hrun]⟩
  | error fault =>
      have hrun : Parser.nested p s = (.error fault, m) := by
        simp only [Parser.nested, hdescend]
      refine ⟨by rwa [hrun], fun found h => hfaults found ?_⟩
      rw [hrun] at h
      exact congrArg Except.error (Except.error.inj h)

theorem releasing (hp : p.Consistent) : (Parser.releasing p).Consistent :=
  fun s hs => ⟨(hp s hs).scanned, (hp s hs).faults⟩

theorem manyUpTo {more : Parser Bool} (hmore : more.Consistent) (hp : p.Consistent) (n : Nat) :
    (Parser.manyUpTo more p n).Consistent := by
  induction n with
  | zero => exact hmore.next fun _ => .pure []
  | succ n ih =>
      refine hmore.next fun yes => ?_
      split
      · exact hp.next fun a => ih.next fun as => .pure (a :: as)
      · exact .pure []

theorem many {more : Parser Bool} (hmore : more.Consistent) (hp : p.Consistent) :
    (Parser.many more p).Consistent := by
  intro s hs
  obtain ⟨hscanned, hfaults⟩ := manyUpTo hmore hp s.rest.length s hs
  exact ⟨hscanned, hfaults⟩

end Consistent

namespace ConsistentAt

variable {t : Token}

/-- Where a token comes there is no fault of missing one, whatever kind that would have. -/
theorem current_of_head (hs : s.IsScanned) (hhead : s.rest.head? = some t) :
    (Parser.current kind).ConsistentAt s := by
  obtain ⟨ts, hrest⟩ := List.head?_eq_some_iff.1 hhead
  have hrun : Parser.current kind s = (.ok t, s) := by simp [Parser.current, hrest]
  exact .of_unmoved hs (by rw [hrun]) (by simp [hrun])

/-- A token that is known to come is accepted without a fault. -/
theorem expect_of_head {accepts : Token → Bool} (hs : s.IsScanned)
    (hhead : s.rest.head? = some t) (haccepts : accepts t = true) :
    (Parser.expect accepts kind).ConsistentAt s := by
  refine (current_of_head hs hhead).bind fun u m hm h => ?_
  obtain ⟨rfl, hhead'⟩ := current_eq_ok h
  obtain rfl : t = u := Option.some.inj (hhead.symm.trans hhead')
  rw [if_pos haccepts]
  exact Consistent.pure t m hm

/-- Anything but a type may be quoted where a type was expected. -/
theorem refuse_type (hs : s.IsScanned) (ht : t.lexeme ∉ reservedTypes) :
    (Parser.refuse .expectedType t : Parser α).ConsistentAt s := by
  refine .of_unmoved hs rfl fun fault h => ?_
  obtain rfl := Except.error.inj h
  have hkind : FaultKind.expectedType ∉ idleKinds := by decide
  exact ⟨hkind, fun _ => ⟨t.lexeme, rfl, ht⟩⟩

theorem advanceWithin_type (hs : s.IsScanned) (hhead : s.rest.head? = some t)
    (ht : t.lexeme ∉ reservedTypes) : (Parser.advanceWithin .expectedType).ConsistentAt s := by
  refine (current_of_head hs hhead).bind fun u m hm h => ?_
  obtain ⟨rfl, hhead'⟩ := current_eq_ok h
  obtain rfl : t = u := Option.some.inj (hhead.symm.trans hhead')
  refine (Consistent.advance m hm).bind fun _ m' hm' _ =>
    (Consistent.peek m' hm').bind fun following m'' hm'' _ => ?_
  cases following with
  | some _ => exact Consistent.pure () m'' hm''
  | none => exact refuse_type hm'' ht

end ConsistentAt

/-- Behind a token that is not the last one there comes another. -/
theorem exists_of_advanceWithin {m : Progress} (h : advanceWithin kind s = (.ok (), m)) :
    ∃ t, m.rest.head? = some t := by
  obtain ⟨t, m₁, -, hrun₁⟩ := bind_eq_ok h
  obtain ⟨_, m₂, -, hrun₂⟩ := bind_eq_ok hrun₁
  obtain ⟨following, m₃, hpeek, hrun₃⟩ := bind_eq_ok hrun₂
  obtain ⟨hfollowing, rfl⟩ := Prod.mk.inj hpeek
  cases following with
  | none => exact absurd hrun₃ refuse_ne_ok
  | some u =>
      obtain ⟨-, rfl⟩ := pure_eq_ok hrun₃
      exact ⟨u, Except.ok.inj hfollowing⟩

end Rules

/-! ### Expressions -/

theorem factor_consistent {inner : Parser Expression} (hinner : inner.Consistent) :
    (factor inner).Consistent := by
  refine fun s hs => (Consistent.current rfl s hs).bind fun t m hm h => ?_
  obtain ⟨rfl, hhead⟩ := current_eq_ok h
  have hspelled := hm.of_head? hhead
  cases hkind : t.kind with
  | number =>
      dsimp only
      rw [if_pos (Token.isNumeral_of_isSpelled hspelled hkind)]
      exact Consistent.advance.next (fun _ => .pure _) m hm
  | identifier => exact Consistent.advance.next (fun _ => .pure _) m hm
  | symbol =>
      dsimp only
      split
      · exact (Consistent.advanceWithin rfl).next (fun _ => hinner.next fun _ =>
          .take rfl fun _ => .pure _) m hm
      · exact Consistent.refuse rfl t m hm
  | _ => exact Consistent.refuse rfl t m hm

theorem chain_consistent {accepts : BinaryOperator → Bool} {kind : FaultKind}
    {operand : Parser Expression} (hkind : kind.isPlain = true) (hoperand : operand.Consistent)
    (n : Nat) (lhs : Expression) : (chain accepts kind operand n lhs).Consistent := by
  induction n generalizing lhs with
  | zero =>
      refine Consistent.nextOperator.next fun following => ?_
      cases following with
      | none => exact .pure lhs
      | some op => exact .refuseDepth
  | succ n ih =>
      refine Consistent.nextOperator.next fun following => ?_
      cases following with
      | none => exact .pure lhs
      | some op =>
          exact Consistent.descend.next fun _ => (Consistent.advanceWithin hkind).next fun _ =>
            hoperand.next fun rhs => ih (.binary op lhs rhs)

theorem term_consistent {inner : Parser Expression} (hinner : inner.Consistent) :
    (term inner).Consistent :=
  (factor_consistent hinner).next fun first =>
    chain_consistent rfl (factor_consistent hinner) maxDepth first

theorem sign_consistent : sign.Consistent := by
  refine Consistent.nextOperator.next fun following => ?_
  cases following with
  | none => exact .pure none
  | some op => exact (Consistent.advanceWithin rfl).next fun _ => .pure _

theorem simpleExpression_consistent {inner : Parser Expression} (hinner : inner.Consistent) :
    (simpleExpression inner).Consistent :=
  sign_consistent.next fun _ => (term_consistent hinner).next fun _ =>
    chain_consistent rfl (term_consistent hinner) maxDepth _

theorem comparison_consistent {inner : Parser Expression} (hinner : inner.Consistent) :
    (comparison inner).Consistent := by
  refine (simpleExpression_consistent hinner).next fun lhs => Consistent.nextOperator.next
    fun following => ?_
  cases following with
  | none => exact .pure lhs
  | some op =>
      exact (Consistent.advanceWithin rfl).next fun _ =>
        (simpleExpression_consistent hinner).next fun _ => .pure _

theorem expressionWithin_consistent (levels : Nat) : (expressionWithin levels).Consistent := by
  induction levels with
  | zero => exact .refuseDepth
  | succ levels ih => exact Consistent.descend.next fun _ => comparison_consistent ih

theorem rootExpression_consistent : rootExpression.Consistent :=
  .releasing (expressionWithin_consistent maxDepth)

/-! ### Declarations -/

theorem listedName_consistent {kind : FaultKind} (hkind : kind.isPlain = true) :
    (listedName kind).Consistent :=
  .takeWithin hkind rfl fun _ => .pure _

theorem identifierList_consistent : identifierList.Consistent := by
  have hothers : (many (isNext (·.isSymbol ",")) nextName).Consistent :=
    .many .isNext ((Consistent.advanceWithin rfl).next fun _ => listedName_consistent rfl)
  exact (listedName_consistent rfl).next fun first => hothers.next fun others =>
    .pure (first :: others)

theorem typeName_consistentAt {s : Progress} {t : Token} (hs : s.IsScanned)
    (hhead : s.rest.head? = some t) : typeName.ConsistentAt s := by
  refine (ConsistentAt.current_of_head hs hhead).bind fun u m hm h => ?_
  obtain ⟨rfl, hhead'⟩ := current_eq_ok h
  split
  · exact Consistent.pure _ m hm
  · next htype =>
      exact .refuse_type hm (Token.notMem_reservedTypes_of_isSpelled (hm.of_head? hhead') htype)

theorem declaration_consistent : declaration.Consistent := by
  refine identifierList_consistent.next fun names s hs => ?_
  refine (Consistent.expect rfl s hs).bind fun colon m hm h => ?_
  obtain ⟨rfl, hhead, hcolon⟩ := expect_eq_ok h
  have hlexeme : colon.lexeme = ":" := congrArg Terminal.lexeme (Token.isSymbol_iff.1 hcolon)
  have hadvance : (advanceWithin .expectedType).ConsistentAt m :=
    .advanceWithin_type hm hhead (by rw [hlexeme]; decide)
  refine hadvance.bind fun _ m' hm' h' => ?_
  obtain ⟨t, hhead'⟩ := exists_of_advanceWithin h'
  exact (typeName_consistentAt hm' hhead').bind fun _ m'' hm'' _ =>
    (Consistent.advanceWithin rfl).next (fun _ => .pure _) m'' hm''

theorem declarations_consistent : declarations.Consistent := by
  have hline : declarationLine.Consistent :=
    (Consistent.advanceWithin rfl).next fun _ => declaration_consistent.next fun d =>
      .take rfl fun _ => .pure d
  exact .many .isNext hline

/-! ### Statements -/

theorem assignment_consistent : assignment.Consistent :=
  .takeWithin rfl rfl fun _ => .takeWithin rfl rfl fun _ => rootExpression_consistent.next fun _ =>
    .take rfl fun _ => .pure _

section Inner

variable {inner : Parser Statement} (hinner : inner.Consistent)

include hinner

theorem compound_consistent : (compound inner).Consistent := by
  have hmore : beforeEnd.Consistent := (Consistent.current rfl).next fun _ => .pure _
  exact .takeWithin rfl rfl fun _ => (Consistent.many hmore hinner).next fun statements =>
    Consistent.advance.next fun _ => .pure statements

/-- Where the word `if` comes it is not missed. -/
theorem conditional_consistentAt {s : Progress} {t : Token} (hs : s.IsScanned)
    (hhead : s.rest.head? = some t) (ht : t.isReservedWord "if" = true) :
    (conditional inner).ConsistentAt s := by
  refine (ConsistentAt.expect_of_head hs hhead ht).bind fun _ m hm _ => ?_
  refine (Consistent.advanceWithin rfl).next (fun _ => ?_) m hm
  refine rootExpression_consistent.next fun condition => .takeWithin rfl rfl fun _ => ?_
  refine hinner.next fun branch => Consistent.isNext.next fun follows => ?_
  split
  · exact (Consistent.advanceWithin rfl).next fun _ => hinner.next fun _ => .pure _
  · exact .pure _

/-- Where the word `while` comes it is not missed. -/
theorem repetitive_consistentAt {s : Progress} {t : Token} (hs : s.IsScanned)
    (hhead : s.rest.head? = some t) (ht : t.isReservedWord "while" = true) :
    (repetitive inner).ConsistentAt s := by
  refine (ConsistentAt.expect_of_head hs hhead ht).bind fun _ m hm _ => ?_
  exact (Consistent.advanceWithin rfl).next (fun _ => rootExpression_consistent.next fun _ =>
    .takeWithin rfl rfl fun _ => hinner.next fun _ => .pure _) m hm

theorem statementBody_consistent : (statementBody inner).Consistent := by
  refine fun s hs => (Consistent.current rfl s hs).bind fun t m hm h => ?_
  obtain ⟨rfl, hhead⟩ := current_eq_ok h
  have hrefuse : (refuse .invalidCommand t : Parser Statement).ConsistentAt m :=
    Consistent.refuse rfl t m hm
  cases hkind : t.kind with
  | identifier => exact assignment_consistent m hm
  | reservedWord =>
      have hword {w : String} (hlexeme : t.lexeme = w) : t.isReservedWord w = true := by
        simp [Token.isReservedWord, Token.isSpelled, hkind, hlexeme]
      dsimp only
      split
      · exact (declarations_consistent.answer _) m hm
      · exact ((compound_consistent hinner).answer _) m hm
      · next hlexeme => exact conditional_consistentAt hinner hm hhead (hword hlexeme)
      · next hlexeme => exact repetitive_consistentAt hinner hm hhead (hword hlexeme)
      · exact hrefuse
  | _ => exact hrefuse

end Inner

theorem statementWithin_consistent (levels : Nat) : (statementWithin levels).Consistent := by
  induction levels with
  | zero => exact .refuseDepth
  | succ levels ih => exact .nested (statementBody_consistent ih)

/-! ### Programs -/

theorem block_consistent : block.Consistent :=
  declarations_consistent.next fun _ =>
    (compound_consistent (statementWithin_consistent maxDepth)).next fun _ => .pure _

theorem program_consistent : program.Consistent := by
  refine .takeWithin rfl rfl fun _ => .takeWithin rfl rfl fun name => ?_
  refine .takeWithin rfl rfl fun _ => ?_
  refine block_consistent.next fun b => .take rfl fun _ => Consistent.peek.next fun following => ?_
  cases following with
  | some t => exact .refuse rfl t
  | none => exact .pure _

end Parser

/-! ### Texts without tokens -/

/-- Reading comes to the end of a text exactly where nothing but a gap is left. -/
theorem Cursor.scan_eq_nil_iff {cursor : Cursor} :
    cursor.scan = ([], none) ↔ IsLastGap cursor.rest := by
  constructor
  · intro hscan
    rcases cursor.next_cases with ⟨hlast, -⟩ | ⟨gap, piece, reading, after, hnext, -, -, hcovers, -⟩
    · exact hlast
    · cases reading with
      | token t => simp [scan_of_token hnext] at hscan
      | refused fault => simp [scan_of_refused hnext] at hscan
      | finished marker => nomatch hcovers
  · intro hlast
    have hskipped := skipGap_rest_length_le_of_isLastGap hlast cursor.location []
    rw [List.append_nil] at hskipped
    have hrest : cursor.skipBlanks.rest = [] :=
      List.length_eq_zero_iff.1 (Nat.le_zero.1 hskipped)
    exact scan_of_finished (next_of_rest_nil hrest)

theorem isLastGap_iff_of_scanText {text : String} {ts : List Token} (h : scanText text = .ok ts) :
    IsLastGap text.toList ↔ ts = [] := by
  have hscan := scan_of_scanText h
  have hgap : (Cursor.ofString text).scan = ([], none) ↔ IsLastGap text.toList :=
    Cursor.scan_eq_nil_iff
  rw [← hgap, hscan]
  simp

/-- No fault is raised on scanned tokens that only the scanner could find, or that it excludes. -/
theorem isRaised_of_parseTokens {text : String} {ts : List Token} {fault : Fault}
    (hscan : scanText text = .ok ts) (h : parseTokens ts = .error fault) : fault.IsRaised := by
  by_cases hne : ts = []
  · subst hne
    obtain rfl := Except.error.inj h
    exact Fault.isRaised_of_isPlain rfl
  · rw [parseTokens_of_ne_nil hne] at h
    have hscanned : (Progress.start ts).IsScanned := isSpelled_of_scanText hscan
    exact (Parser.program_consistent _ hscanned).faults fault h

/-- **The scanner and the parser fit together.**  If a text is scanned and its tokens are refused,
the fault is none of those that the scanner finds, nor a number that is none, nor a missing `if` or
`while`.  Where a type was expected, the fault is at a token, and at none that is the name of a
type.  There are said to be no tokens exactly if the text consists of blanks and comments. -/
theorem parseTokens_fault_fitsScan {text : String} {ts : List Token} {fault : Fault}
    (hscan : scanText text = .ok ts) (hfault : parseTokens ts = .error fault) :
    fault.kind ∉ idleKinds ∧
      (fault.kind = .expectedType → (∃ t ∈ ts, fault.IsPlacedAt t) ∧
        ∀ t ∈ ts, fault.IsPlacedAt t → t.kind ≠ .reservedType) ∧
      (fault.kind = .noTokensToParse ↔ IsLastGap text.toList) := by
  have hraised := isRaised_of_parseTokens hscan hfault
  rw [isLastGap_iff_of_scanText hscan]
  by_cases hne : ts = []
  · subst hne
    obtain rfl := Except.error.inj hfault
    exact ⟨hraised.kind, fun hkind => FaultKind.noConfusion hkind, iff_of_true rfl rfl⟩
  · obtain ⟨hkind, t, ht, hplaced⟩ := parseTokens_fault_isPlacedAt hne hfault
    refine ⟨hraised.kind, fun htype => ⟨⟨t, ht, hplaced⟩, fun u hu hplaced' hreserved => ?_⟩,
      iff_of_false hkind hne⟩
    obtain ⟨lexeme, hlexeme, hnotMem⟩ := hraised.type htype
    obtain rfl := hplaced'.quotes lexeme hlexeme
    exact hnotMem (Token.mem_reservedTypes_of_isSpelled (isSpelled_of_scanText hscan u hu)
      hreserved)

/-- Type names are spelled in small letters, so here a name stands where a type has to; the other
text has nothing but comments, of which the last one is left open. -/
theorem parseTokens_fault_fitsScan_capital :
    (∃ ts fault, scanText "program P; var x : Integer;" = .ok ts ∧
      parseTokens ts = .error fault ∧ fault.kind = .expectedType ∧ fault.kind ∉ idleKinds ∧
      ∀ t ∈ ts, fault.IsPlacedAt t → t.kind ≠ .reservedType) ∧
    ∃ fault, scanText " // var x :\n\t// integer" = .ok [] ∧ parseTokens [] = .error fault ∧
      fault.kind = .noTokensToParse ∧ IsLastGap " // var x :\n\t// integer".toList := by
  have hscan : scanText "program P; var x : Integer;" =
      .ok [⟨.reservedWord, "program", 1, 7⟩, ⟨.identifier, "P", 1, 9⟩, ⟨.symbol, ";", 1, 10⟩,
        ⟨.reservedWord, "var", 1, 14⟩, ⟨.identifier, "x", 1, 16⟩, ⟨.symbol, ":", 1, 18⟩,
        ⟨.identifier, "Integer", 1, 26⟩, ⟨.symbol, ";", 1, 27⟩] := by decide +kernel
  have hempty : scanText " // var x :\n\t// integer" = .ok [] := by decide +kernel
  constructor
  · refine ⟨_, ⟨.expectedType, some "Integer", some 1, some 26⟩, hscan, rfl, rfl, ?_⟩
    obtain ⟨hkind, htype, -⟩ := parseTokens_fault_fitsScan hscan rfl
    exact ⟨hkind, (htype rfl).2⟩
  · obtain ⟨-, -, hgap⟩ := parseTokens_fault_fitsScan hempty rfl
    exact ⟨_, hempty, rfl, rfl, hgap.1 rfl⟩

end MiniPascal
