import MiniPascal.Proofs.Grammar
import MiniPascal.Proofs.ScanSteps

/-!
# The spelling of scanned lexemes

A scan gives a category only to lexemes of its shape, so a tree that is derived
from scanned terminals has names and numerals at its leaves.
-/

namespace MiniPascal

/-- A quote, characters that stay quoted, and another quote. -/
def isQuotedText (text : String) : Bool :=
  match text.toList with
  | [] => false
  | c :: cs => isQuote c && cs.getLast?.any isQuote && cs.dropLast.all staysQuoted

/-- The lexeme has the shape that its category demands. -/
def Terminal.isSpelled (t : Terminal) : Bool :=
  match t.category with
  | .reservedWord => t.lexeme ∈ reservedWords
  | .reservedType => t.lexeme ∈ reservedTypes
  | .reservedOperator => t.lexeme ∈ reservedOperators
  | .identifier => isName t.lexeme
  | .integerNumber => isIntegerNumeral t.lexeme
  | .realNumber => isRealNumeral t.lexeme
  | .string => isQuotedText t.lexeme
  | category => (t.lexeme.toList, category) ∈ fixedLexemes

/-- A word has the shape of the category that it is given. -/
theorem isSpelled_ofWord {w : String} (hw : isWord w = true) :
    (Terminal.mk (Category.ofWord w) w).isSpelled = true := by
  by_cases hword : w ∈ reservedWords
  · simp [Category.ofWord, Terminal.isSpelled, hword]
  by_cases htype : w ∈ reservedTypes
  · simp [Category.ofWord, Terminal.isSpelled, hword, htype]
  by_cases hoperator : w ∈ reservedOperators
  · simp [Category.ofWord, Terminal.isSpelled, hword, htype, hoperator]
  · have hcategory : Category.ofWord w = .identifier := by
      simp [Category.ofWord, hword, htype, hoperator]
    simp [Terminal.isSpelled, isName, hcategory, hw]

theorem isSpelled_of_munchNumber {c : Char} {cs chars rest : List Char} {category : Category}
    (hc : c.isDigit = true) (h : munchNumber (c :: cs) = (.lexeme category chars, rest)) :
    (Terminal.mk category (String.ofList chars)).isSpelled = true := by
  have hwhole : ∀ d ∈ (c :: cs).takeWhile Char.isDigit, d.isDigit = true :=
    fun d hd => List.all_eq_true.1 List.all_takeWhile d hd
  have hne : (c :: cs).takeWhile Char.isDigit ≠ [] := by simp [hc]
  unfold munchNumber at h
  split at h
  · next ds hds =>
      obtain ⟨⟨rfl, rfl⟩, rfl⟩ := by simpa only [Prod.mk.injEq, Piece.lexeme.injEq] using h
      refine isRealNumeral_iff.2 ⟨_, _, String.toList_ofList, hne, hwhole, ?_⟩
      exact fun d hd => List.all_eq_true.1 List.all_takeWhile d hd
  · obtain ⟨⟨rfl, rfl⟩, rfl⟩ := by simpa only [Prod.mk.injEq, Piece.lexeme.injEq] using h
    refine isIntegerNumeral_iff.2 ?_
    rw [String.toList_ofList]
    exact ⟨hne, hwhole⟩

theorem isSpelled_of_munchWord {c : Char} {cs chars rest : List Char} {category : Category}
    (hc : c.isDigit = false) (hword : isWordChar c = true)
    (h : munchWord (c :: cs) = (.lexeme category chars, rest)) :
    (Terminal.mk category (String.ofList chars)).isSpelled = true := by
  obtain ⟨⟨rfl, rfl⟩, rfl⟩ := by
    simpa only [munchWord, Prod.mk.injEq, Piece.lexeme.injEq] using h
  refine isSpelled_ofWord (Bool.and_eq_true_iff.2 ⟨?_, ?_⟩)
  · simp [hword, hc]
  · rw [String.toList_ofList]
    exact List.all_takeWhile

theorem isSpelled_of_munchQuoted {c : Char} {cs chars rest : List Char} {category : Category}
    (hc : isQuote c = true) (h : munchQuoted c cs = (.lexeme category chars, rest)) :
    (Terminal.mk category (String.ofList chars)).isSpelled = true := by
  unfold munchQuoted at h
  split at h
  · simp at h
  · next d ds hds =>
      split at h
      · next hd =>
          obtain ⟨⟨rfl, rfl⟩, rfl⟩ := by simpa only [Prod.mk.injEq, Piece.lexeme.injEq] using h
          simp [Terminal.isSpelled, isQuotedText, hc, hd]
      · simp at h

theorem isSpelled_of_fixedLexeme? {cs chars : List Char} {category : Category}
    (h : fixedLexeme? cs = some (chars, category)) :
    (Terminal.mk category (String.ofList chars)).isSpelled = true := by
  have hmem : (chars, category) ∈ fixedLexemes := List.mem_of_find?_eq_some h
  have hfixed : ∀ entry ∈ fixedLexemes,
      (Terminal.mk entry.2 (String.ofList entry.1)).isSpelled = true := by decide
  exact hfixed _ hmem

/-- Every lexeme that is taken off a text has the shape of its category. -/
theorem isSpelled_of_munch {c : Char} {cs chars rest : List Char} {category : Category}
    (h : munch c cs = (.lexeme category chars, rest)) :
    (Terminal.mk category (String.ofList chars)).isSpelled = true := by
  unfold munch at h
  split at h
  · next hdigit => exact isSpelled_of_munchNumber hdigit h
  · next hdigit =>
      split at h
      · next hword => exact isSpelled_of_munchWord (by simpa using hdigit) hword h
      · split at h
        · next hquote => exact isSpelled_of_munchQuoted hquote h
        · split at h
          · next lexeme found hfixed =>
              obtain ⟨⟨rfl, rfl⟩, rfl⟩ := by
                simpa only [Prod.mk.injEq, Piece.lexeme.injEq] using h
              exact isSpelled_of_fixedLexeme? hfixed
          · simp at h

/-- A token that is read has the shape of its category. -/
theorem isSpelled_of_next {cursor after : Cursor} {t : Token}
    (h : cursor.next = (.token t, after)) : t.terminal.isSpelled = true := by
  obtain ⟨c, cs, chars, -, hmunch, hlexeme, -⟩ := Cursor.next_eq_token h
  have hspelled := isSpelled_of_munch hmunch
  rwa [← hlexeme] at hspelled

/-- Every token of a scan has the shape of its category. -/
theorem isSpelled_of_scanText {text : String} {ts : List Token} (h : scanText text = .ok ts) :
    ∀ t ∈ ts, t.terminal.isSpelled = true := by
  have hall := Cursor.forall_mem_scan (P := fun t => t.terminal.isSpelled = true)
    isSpelled_of_next (Cursor.ofString text)
  rwa [scan_of_scanText h] at hall

/-- Every one of the terminals has the shape of its category. -/
def Terminal.AllSpelled (ts : List Terminal) : Prop :=
  ∀ t ∈ ts, t.isSpelled = true

@[simp]
theorem Terminal.allSpelled_cons {t : Terminal} {ts : List Terminal} :
    AllSpelled (t :: ts) ↔ t.isSpelled = true ∧ AllSpelled ts := by
  simp [AllSpelled]

@[simp]
theorem Terminal.allSpelled_append {ts us : List Terminal} :
    AllSpelled (ts ++ us) ↔ AllSpelled ts ∧ AllSpelled us := by
  simp [AllSpelled, or_imp, forall_and]

/-- An expression that is derived from scanned terminals is well spelled. -/
theorem Expression.Derives.isWellSpelled {layer : Layer} {e : Expression} {ts : List Terminal}
    (h : e.Derives layer ts) (hts : Terminal.AllSpelled ts) : e.isWellSpelled = true := by
  induction h with
  | number kind numeral hnumeral =>
      have hspelled := (Terminal.allSpelled_cons.1 hts).1
      cases kind <;> exact hspelled
  | ident name => exact (Terminal.allSpelled_cons.1 hts).1
  | parens he ih =>
      -- parentheses leave no node, so they say nothing about the tree
      obtain ⟨-, hinner⟩ := Terminal.allSpelled_cons.1 hts
      exact ih (Terminal.allSpelled_append.1 hinner).1
  | ofFactor he ih | ofTerm he ih | ofSimple he ih => exact ih hts
  | signed ht he ih => exact ih (Terminal.allSpelled_cons.1 hts).2
  | product hop ht hl hr ihl ihr | sum hop ht hl hr ihl ihr | comparison hop ht hl hr ihl ihr =>
      obtain ⟨hleft, hright⟩ := Terminal.allSpelled_append.1 hts
      have hlhs := ihl hleft
      have hrhs := ihr (Terminal.allSpelled_cons.1 hright).2
      simp [Expression.isWellSpelled, hlhs, hrhs]

/-- Names between commas that were scanned are names. -/
theorem Declaration.all_isName_of_intersperse {names : List String}
    (h : Terminal.AllSpelled ((names.map Terminal.name).intersperse (.symbol ","))) :
    names.all isName = true := by
  induction names with
  | nil => rfl
  | cons name names ih =>
      cases names with
      | nil =>
          have hname : isName name = true := h _ (List.mem_singleton.2 rfl)
          simp [hname]
      | cons other names =>
          have hcons : Terminal.AllSpelled (.name name :: .symbol "," ::
              ((other :: names).map Terminal.name).intersperse (.symbol ",")) := h
          obtain ⟨hname, hothers⟩ := Terminal.allSpelled_cons.1 hcons
          have hall := ih (Terminal.allSpelled_cons.1 hothers).2
          rw [List.all_cons, hall, Bool.and_true]
          exact hname

/-- Declarations that were scanned are well spelled. -/
theorem Declaration.all_isWellSpelled_of_terminalsAll {ds : List Declaration}
    (hnamed : AllNamed ds) (h : Terminal.AllSpelled (terminalsAll ds)) :
    ds.all Declaration.isWellSpelled = true := by
  refine List.all_eq_true.2 fun d hd => ?_
  have hne : d.names.isEmpty = false := by simpa using hnamed d hd
  have hterminals : Terminal.AllSpelled d.terminals := fun t ht =>
    h t (List.mem_flatMap.2 ⟨d, hd, by simp [ht]⟩)
  have hnames := all_isName_of_intersperse (Terminal.allSpelled_append.1 hterminals).1
  simp [Declaration.isWellSpelled, hne, hnames]

namespace Statement

mutual

/-- A statement that is derived from scanned terminals is well spelled. -/
theorem Derives.isWellSpelled {s : Statement} {ts : List Terminal} {ns : List Nat}
    (h : s.Derives ts ns) (hts : Terminal.AllSpelled ts) : s.isWellSpelled = true := by
  cases h with
  | assign ht hvalue =>
      obtain ⟨htarget, hbehind⟩ := Terminal.allSpelled_cons.1 hts
      obtain ⟨-, hright⟩ := Terminal.allSpelled_cons.1 hbehind
      have hspelled := hvalue.isWellSpelled (Terminal.allSpelled_append.1 hright).1
      exact Bool.and_eq_true_iff.2 ⟨htarget, hspelled⟩
  | declare hne hnamed =>
      have hspelled := Declaration.all_isWellSpelled_of_terminalsAll hnamed hts
      exact Bool.and_eq_true_iff.2 ⟨by simpa using hne, hspelled⟩
  | compound hss =>
      obtain ⟨-, hinner⟩ := Terminal.allSpelled_cons.1 hts
      exact hss.areWellSpelled (Terminal.allSpelled_append.1 hinner).1
  | ifThen hcondition hbranch | whileDo hcondition hbranch =>
      obtain ⟨-, hbehind⟩ := Terminal.allSpelled_cons.1 hts
      obtain ⟨hfirst, hsecond⟩ := Terminal.allSpelled_append.1 hbehind
      have hspelled := hbranch.isWellSpelled (Terminal.allSpelled_cons.1 hsecond).2
      exact Bool.and_eq_true_iff.2 ⟨hcondition.isWellSpelled hfirst, hspelled⟩
  | ifThenElse hcondition hbranch halternative =>
      obtain ⟨-, hbehind⟩ := Terminal.allSpelled_cons.1 hts
      obtain ⟨hfirst, hsecond⟩ := Terminal.allSpelled_append.1 hbehind
      obtain ⟨hthen, helse⟩ := Terminal.allSpelled_append.1 (Terminal.allSpelled_cons.1 hsecond).2
      have hspelled := halternative.isWellSpelled (Terminal.allSpelled_cons.1 helse).2
      have hconditional := Bool.and_eq_true_iff.2
        ⟨hcondition.isWellSpelled hfirst, hbranch.isWellSpelled hthen⟩
      exact Bool.and_eq_true_iff.2 ⟨hconditional, hspelled⟩

/-- Statements that are derived from scanned terminals are well spelled. -/
theorem DerivesAll.areWellSpelled {ss : List Statement} {ts : List Terminal} {ns : List Nat}
    (h : DerivesAll ss ts ns) (hts : Terminal.AllSpelled ts) : areWellSpelled ss = true := by
  cases h with
  | nil => rfl
  | cons hs hss =>
      obtain ⟨hfirst, hothers⟩ := Terminal.allSpelled_append.1 hts
      exact Bool.and_eq_true_iff.2 ⟨hs.isWellSpelled hfirst, hss.areWellSpelled hothers⟩

end

end Statement

/-- A program that is derived from scanned terminals is well spelled. -/
theorem Program.Derives.isWellSpelled {p : Program} {ts : List Terminal} {ns : List Nat}
    (h : p.Derives ts ns) (hts : Terminal.AllSpelled ts) : p.isWellSpelled = true := by
  obtain ⟨us, hbody, rfl⟩ := h.body
  simp only [Terminal.allSpelled_cons, Terminal.allSpelled_append] at hts
  obtain ⟨-, hname, -, hdeclarations, -, hus, -⟩ := hts
  have hds := Declaration.all_isWellSpelled_of_terminalsAll h.named hdeclarations
  have hheader := Bool.and_eq_true_iff.2 ⟨show isName p.name = true from hname, hds⟩
  exact Bool.and_eq_true_iff.2 ⟨hheader, hbody.areWellSpelled hus⟩

end MiniPascal
