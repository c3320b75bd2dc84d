import MiniPascal.Proofs.LexemeScanning

/-!
# Scanning a layout

The layout of a well-spelled program scans to its terminals.  No lexeme of it runs
into the next one: operators stand between blanks, and what follows an operand is
a blank, a closing parenthesis or a semicolon.
-/

namespace MiniPascal

/-- Characters in parentheses, if they are needed. -/
theorem Expression.scans_parenthesize (needed : Bool) {text : String} {us : List Terminal}
    (htext : ∀ rest ts, isBoundary rest = true → Scans rest ts →
      Scans (text.toList ++ rest) (us ++ ts))
    {rest : List Char} {ts : List Terminal} (hrest : isBoundary rest = true) (h : Scans rest ts) :
    Scans ((parenthesize needed text).toList ++ rest)
      (parenthesizeTerminals needed us ++ ts) := by
  cases needed with
  | false => exact htext rest ts hrest h
  | true =>
      -- a closing parenthesis carries on no lexeme, whatever the text in front of it ends with
      have hclose : Scans (')' :: rest) (.symbol ")" :: ts) := h.symbol (by decide)
      have hinner := htext _ _ rfl hclose
      have hopen := hinner.symbol (c := '(') (by decide)
      simpa [parenthesize, parenthesizeTerminals] using hopen

/-- An expression stands in front of a text that does not carry its last operand on. -/
theorem Expression.scans_layout {e : Expression} (hspelled : e.isWellSpelled = true)
    {rest : List Char} {ts : List Terminal} (hrest : isBoundary rest = true) (h : Scans rest ts) :
    Scans (e.layout.toList ++ rest) (e.terminals ++ ts) := by
  induction e generalizing rest ts with
  | number kind numeral => exact h.number hspelled hrest
  | ident name => exact h.name hspelled (isWordChar_of_isBoundary hrest)
  | signed sign operand ih =>
      have hoperand := scans_parenthesize operand.needsParensSigned (fun _ _ => ih hspelled)
        hrest h
      simpa [layout, terminals] using hoperand.sign sign
  | binary op lhs rhs ihl ihr =>
      obtain ⟨hl, hr⟩ : lhs.isWellSpelled = true ∧ rhs.isWellSpelled = true := by
        simpa [isWellSpelled] using hspelled
      have hrhs := scans_parenthesize (needsParensRight op rhs) (fun _ _ => ihr hr) hrest h
      -- with a blank on each side the operator is no part of a longer lexeme or a comment
      have hop := (hrhs.operator op).blank (c := ' ') rfl
      have hlhs := scans_parenthesize (needsParensLeft op lhs) (fun _ _ => ihl hl) rfl hop
      simpa [layout, terminals] using hlhs

namespace Declaration

theorem scans_names {names : List String} (hnames : names.all isName = true) {rest : List Char}
    {ts : List Terminal} (hrest : rest.head?.any isWordChar = false) (h : Scans rest ts) :
    Scans ((String.intercalate ", " names).toList ++ rest)
      ((names.map Terminal.name).intersperse (.symbol ",") ++ ts) := by
  induction names with
  | nil => exact h
  | cons name names ih =>
      obtain ⟨hname, hothers⟩ : isName name = true ∧ names.all isName = true := by
        simpa using hnames
      cases names with
      | nil => simpa using h.name hname hrest
      | cons other names =>
          have hblank := (ih hothers).blank (c := ' ') rfl
          have hcomma := hblank.symbol (c := ',') (by decide)
          simpa [String.intercalate_cons_cons] using hcomma.name hname rfl

theorem scans_layout {d : Declaration} (hspelled : d.isWellSpelled = true) (indent : Nat)
    {rest : List Char} {ts : List Terminal} (h : Scans rest ts) :
    Scans ((d.layout indent).toList ++ rest)
      (.word "var" :: (d.terminals ++ [.symbol ";"]) ++ ts) := by
  obtain ⟨-, hnames⟩ := Bool.and_eq_true_iff.1 hspelled
  have hend : Scans (';' :: '\n' :: rest) (.symbol ";" :: ts) :=
    (h.blank rfl).symbol (by decide)
  have htype := (hend.type d.type rfl).colon.blank (c := ' ') rfl
  have hvar := ((scans_names hnames rfl htype).blank (c := ' ') rfl).reservedWord
    (w := "var") (by decide) rfl
  simpa [layout, header, terminals] using hvar.blanks indent

theorem scans_layoutAll {ds : List Declaration} (hspelled : ds.all Declaration.isWellSpelled = true)
    (indent : Nat) {rest : List Char} {ts : List Terminal} (h : Scans rest ts) :
    Scans ((layoutAll indent ds).toList ++ rest) (terminalsAll ds ++ ts) := by
  induction ds with
  | nil => exact h
  | cons d ds ih =>
      obtain ⟨hd, hds⟩ : d.isWellSpelled = true ∧ ds.all Declaration.isWellSpelled = true := by
        simpa using hspelled
      have hscans := scans_layout hd indent (ih hds)
      simpa [layoutAll, terminalsAll] using hscans

end Declaration

namespace Statement

/-- The header of a conditional or a loop stands in front of the line behind it. -/
theorem scans_header (opening closing : String) (hopening : opening ∈ reservedWords)
    (hclosing : closing ∈ reservedWords) {condition : Expression}
    (hcondition : condition.isWellSpelled = true) (indent : Nat) {rest : List Char}
    {ts : List Terminal} (h : Scans rest ts) :
    Scans ((margin indent).toList ++ (opening.toList ++ ' ' :: (condition.layout.toList ++
        ' ' :: (closing.toList ++ '\n' :: rest))))
      (.word opening :: (condition.terminals ++ .word closing :: ts)) := by
  have hline : Scans ('\n' :: rest) ts := h.blank rfl
  have hblank := (hline.reservedWord hclosing rfl).blank (c := ' ') rfl
  have hspace := (Expression.scans_layout hcondition rfl hblank).blank (c := ' ') rfl
  exact (hspace.reservedWord hopening rfl).blanks indent

mutual

/-- A statement stands in front of every text, since its last line is complete. -/
theorem scans_layout : (s : Statement) → s.isWellSpelled = true → ∀ (indent : Nat)
    {rest : List Char} {ts : List Terminal}, Scans rest ts →
    Scans ((s.layout indent).toList ++ rest) (s.terminals ++ ts)
  | .assign target value, hspelled, indent, rest, ts, h => by
      obtain ⟨htarget, hvalue⟩ := Bool.and_eq_true_iff.1 hspelled
      have hend : Scans (';' :: '\n' :: rest) (.symbol ";" :: ts) :=
        (h.blank rfl).symbol (by decide)
      have hbecomes := ((Expression.scans_layout hvalue rfl hend).blank (c := ' ') rfl).becomes
      have hassign := (hbecomes.blank (c := ' ') rfl).name htarget rfl
      simpa [layout, terminals] using hassign.blanks indent
  | .declare ds, hspelled, indent, rest, ts, h => by
      obtain ⟨-, hds⟩ := Bool.and_eq_true_iff.1 hspelled
      exact Declaration.scans_layoutAll hds indent h
  | .compound ss, hspelled, indent, rest, ts, h => by
      have hend := (((h.blank (c := '\n') rfl).reservedWord (w := "end") (by decide) rfl).blanks
        indent)
      have hbody := (scans_layoutAll ss hspelled (indent + indentStep) hend).blank (c := '\n') rfl
      have hbegin := (hbody.reservedWord (w := "begin") (by decide) rfl).blanks indent
      simpa [layout, layoutAll, terminals] using hbegin
  | .ifThen condition branch, hspelled, indent, rest, ts, h => by
      obtain ⟨hcondition, hbranch⟩ := Bool.and_eq_true_iff.1 hspelled
      have hinner := scans_layout branch hbranch (branch.branchIndent indent) h
      have hheader := scans_header "if" "then" (by decide) (by decide) hcondition indent hinner
      simpa [layout, terminals] using hheader
  | .ifThenElse condition branch alternative, hspelled, indent, rest, ts, h => by
      obtain ⟨hconditional, halternative⟩ := Bool.and_eq_true_iff.1 hspelled
      obtain ⟨hcondition, hbranch⟩ := Bool.and_eq_true_iff.1 hconditional
      have hlast := scans_layout alternative halternative (alternative.branchIndent indent) h
      have helse := ((hlast.blank (c := '\n') rfl).reservedWord (w := "else") (by decide) rfl).blanks
        indent
      have hinner := scans_layout branch hbranch (branch.branchIndent indent) helse
      have hheader := scans_header "if" "then" (by decide) (by decide) hcondition indent hinner
      simpa [layout, terminals] using hheader
  | .whileDo condition body, hspelled, indent, rest, ts, h => by
      obtain ⟨hcondition, hbody⟩ := Bool.and_eq_true_iff.1 hspelled
      have hinner := scans_layout body hbody (body.branchIndent indent) h
      have hheader := scans_header "while" "do" (by decide) (by decide) hcondition indent hinner
      simpa [layout, terminals] using hheader

theorem scans_layoutAll : (ss : List Statement) → areWellSpelled ss = true → ∀ (indent : Nat)
    {rest : List Char} {ts : List Terminal}, Scans rest ts →
    Scans ((layoutAll indent ss).toList ++ rest) (terminalsAll ss ++ ts)
  | [], _, _, _, _, h => h
  | s :: ss, hspelled, indent, rest, ts, h => by
      obtain ⟨hs, hss⟩ := Bool.and_eq_true_iff.1 hspelled
      have hscans := scans_layout s hs indent (scans_layoutAll ss hss indent h)
      simpa [terminalsAll] using hscans

end

end Statement

/-- The layout of a well-spelled program scans to its terminals. -/
theorem Program.scans_layout {p : Program} (hspelled : p.isWellSpelled = true) :
    Scans p.layout.toList p.terminals := by
  obtain ⟨hheader, hbody⟩ := Bool.and_eq_true_iff.1 hspelled
  obtain ⟨hname, hdeclarations⟩ := Bool.and_eq_true_iff.1 hheader
  have hdot : Scans ('.' :: ['\n']) [.symbol "."] := (Scans.nil.blank rfl).symbol (by decide)
  have hend := hdot.reservedWord (w := "end") (by decide) rfl
  have hbody := (Statement.scans_layoutAll p.block.body hbody indentStep hend).blank
    (c := '\n') rfl
  have hbegin := hbody.reservedWord (w := "begin") (by decide) rfl
  have hsemicolon := ((Declaration.scans_layoutAll hdeclarations 0 hbegin).blank
    (c := '\n') rfl).symbol (c := ';') (by decide)
  have hprogram := ((hsemicolon.name hname rfl).blank (c := ' ') rfl).reservedWord
    (w := "program") (by decide) rfl
  simpa [layout, terminals] using hprogram

end MiniPascal
