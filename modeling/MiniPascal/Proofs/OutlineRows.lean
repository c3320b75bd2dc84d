import MiniPascal.Program.Outline
import MiniPascal.Proofs.FaultPlaces
import MiniPascal.Proofs.LayoutScanning
import MiniPascal.Proofs.LexemeReading
import MiniPascal.Proofs.ParserRuns
import MiniPascal.Proofs.PrintedLines

/-!
# The rows of an outline

Every line of an outline is a row: an entry at a depth.  The text of an entry is scanned
to terminals that say which entry it is, whatever blanks stand in front of it.  So the
lines of an outline give back its rows; a sign is told from an operator by the word in
front of it, and a numeral says by its point of which kind it is.
-/

namespace MiniPascal

/-! ### Headers and terminals -/

theorem TypeName.spelling_injective : Function.Injective spelling := by
  intro type type' h
  have htype : ofSpelling? type.spelling = some type := ofSpelling?_eq_some_iff.2 rfl
  exact Option.some.inj (htype.symm.trans (ofSpelling?_eq_some_iff.2 h))

/-- The terminals decide the declaration: commas stand at odd places only. -/
theorem Declaration.terminals_injective : Function.Injective terminals := by
  rintro ⟨names, type⟩ ⟨names', type'⟩ h
  obtain ⟨hnames, htype⟩ := List.append_inj' h rfl
  obtain rfl : names = names' := by
    have heven (ts : List Terminal) (i : Nat) : (ts.intersperse (.symbol ","))[2 * i]? = ts[i]? :=
      List.getElem?_intersperse_two_mul
    have hmap : names.map Terminal.name = names'.map Terminal.name :=
      List.ext_getElem? fun i => by rw [← heven, hnames, heven]
    exact List.map_injective_iff.2 (fun _ _ hname => (Terminal.mk.inj hname).2) hmap
  obtain rfl : type = type' := by
    simpa [Terminal.type, TypeName.spelling_injective.eq_iff] using htype
  rfl

theorem notMem_intercalate {names : List String} (h : names.all isName = true) :
    '\n' ∉ (String.intercalate ", " names).toList := by
  induction names with
  | nil => simp
  | cons name names ih =>
      obtain ⟨hname, hothers⟩ := Bool.and_eq_true_iff.1 h
      have hfirst := notMem_of_isName hname (c := '\n') (by decide)
      cases names with
      | nil => simpa using hfirst
      | cons other names =>
          have hlist := ih hothers
          rw [String.intercalate_cons_cons, String.toList_append, String.toList_append]
          simpa [hfirst] using hlist

theorem Declaration.notMem_header {d : Declaration} (h : d.isWellSpelled = true) :
    '\n' ∉ d.header.toList := by
  obtain ⟨-, hnames⟩ := Bool.and_eq_true_iff.1 h
  have htype : '\n' ∉ d.type.spelling.toList := by cases d.type <;> decide
  simp only [header, String.toList_append, List.mem_append, not_or]
  exact ⟨⟨⟨by decide, notMem_intercalate hnames⟩, by decide⟩, htype⟩

namespace Terminal

theorem kind_word (text : String) : (word text).category.kind = .reservedWord := rfl

theorem kind_name (text : String) : (name text).category.kind = .identifier := rfl

theorem kind_becomes : becomes.category.kind = .operator := rfl

theorem kind_number (kind : NumberKind) (numeral : String) :
    (number kind numeral).category.kind = .number := by
  cases kind <;> rfl

theorem kind_operator (op : BinaryOperator) : (operator op).category.kind = .operator :=
  (operator_denotes op).1

theorem number_inj {kind kind' : NumberKind} {numeral numeral' : String} :
    number kind numeral = number kind' numeral' ↔ kind = kind' ∧ numeral = numeral' := by
  cases kind <;> cases kind' <;> simp [number]

theorem operator_inj {op op' : BinaryOperator} : operator op = operator op' ↔ op = op' :=
  ⟨fun h => (operator_denotes op).eq (h ▸ operator_denotes op'), congrArg operator⟩

end Terminal

/-! ### Entries -/

/-- What a line of an outline says, behind its margin. -/
inductive Entry where
  | program (name : String)
  | declaration (d : Declaration)
  | keyword (word : String)
  | assign (target : String)
  | unary (sign : Sign)
  | operator (op : BinaryOperator)
  | number (kind : NumberKind) (numeral : String)
  | ident (name : String)
  deriving DecidableEq

namespace Entry

/-- How an entry is printed. -/
def text : Entry → String
  | .program name => "program " ++ name
  | .declaration d => d.header
  | .keyword word => word
  | .assign target => ":= " ++ target
  | .unary sign => "unary " ++ sign.spelling
  | .operator op => op.spelling
  | .number _ numeral => numeral
  | .ident name => name

/-- What the text of an entry is scanned to. -/
def terminals : Entry → List Terminal
  | .program name => [.word "program", .name name]
  | .declaration d => .word "var" :: d.terminals
  | .keyword word => [.word word]
  | .assign target => [.becomes, .name target]
  | .unary sign => [.name "unary", .operator sign.operator]
  | .operator op => [.operator op]
  | .number kind numeral => [.number kind numeral]
  | .ident name => [.name name]

/-- Every name and numeral of the entry is one, and its word is reserved. -/
def isWellSpelled : Entry → Bool
  | .program name => isName name
  | .declaration d => d.isWellSpelled
  | .keyword word => word ∈ reservedWords
  | .assign target => isName target
  | .unary _ | .operator _ => true
  | .number kind numeral => kind.admits numeral
  | .ident name => isName name

theorem scans_text {entry : Entry} (h : entry.isWellSpelled = true) :
    Scans entry.text.toList entry.terminals := by
  cases entry with
  | program name =>
      have hname := ((Scans.nil.name h rfl).blank (c := ' ') rfl).reservedWord
        (w := "program") (by decide) rfl
      simpa [text, terminals] using hname
  | declaration d =>
      obtain ⟨-, hnames⟩ := Bool.and_eq_true_iff.1 h
      have htype := (Scans.nil.type d.type rfl).colon.blank (c := ' ') rfl
      have hvar := ((Declaration.scans_names hnames rfl htype).blank (c := ' ') rfl).reservedWord
        (w := "var") (by decide) rfl
      simpa [text, terminals, Declaration.header, Declaration.terminals] using hvar
  | assign target =>
      have htarget := ((Scans.nil.name h rfl).blank (c := ' ') rfl).becomes
      simpa [text, terminals] using htarget
  | unary sign =>
      have hname : isName "unary" = true := by decide
      have hunary := ((Scans.nil.sign sign).blank (c := ' ') rfl).name hname rfl
      simpa [text, terminals] using hunary
  | keyword word => exact Terminal.scans_of_isSpelled (t := .word word) h
  | operator op =>
      exact Terminal.scans_of_isSpelled (t := .operator op) (by cases op <;> decide)
  | number kind numeral => exact Terminal.scans_number h
  | ident name => exact Terminal.scans_of_isSpelled (t := .name name) h

/-- **The terminals decide the entry.** -/
theorem terminals_injective : Function.Injective terminals := by
  intro entry entry' h
  have hkinds := congrArg (List.map fun t => t.category.kind) h
  have hsign (sign sign' : Sign) :
      Terminal.operator sign.operator = .operator sign'.operator ↔ sign = sign' := by
    cases sign <;> cases sign' <;> decide
  have hdeclaration (d : Declaration) : d.terminals ≠ [] := by simp [Declaration.terminals]
  -- the kinds tell apart what is not an entry of the same form, but for `program` and `var`
  cases entry <;> cases entry' <;>
    simp only [terminals, List.map_cons, List.map_nil, List.cons.injEq, Terminal.kind_word,
      Terminal.kind_name, Terminal.kind_becomes, Terminal.kind_number, Terminal.kind_operator,
      reduceCtorEq, false_and, and_false] at hkinds <;>
    simp_all [terminals, Terminal.word, Terminal.name, Terminal.number_inj, Terminal.operator_inj,
      Declaration.terminals_injective.eq_iff]

/-- An entry takes one line. -/
theorem notMem_text {entry : Entry} (h : entry.isWellSpelled = true) :
    '\n' ∉ entry.text.toList := by
  cases entry with
  | program name => simpa [text] using notMem_of_isName h (by decide)
  | declaration d => exact Declaration.notMem_header h
  | assign target => simpa [text] using notMem_of_isName h (by decide)
  | unary sign => cases sign <;> decide
  | keyword word => exact (Terminal.staysOnLine (t := .word word) h).1
  | operator op => cases op <;> decide
  | number kind numeral => exact notMem_of_admits h (by decide) (by decide)
  | ident name => exact notMem_of_isName h (by decide)

end Entry

/-! ### Rows -/

/-- A line of an outline: what it says, and how deep it stands. -/
structure Row where
  depth : Nat
  entry : Entry
  deriving DecidableEq

/-- How a row is printed, without its line feed. -/
def Row.line (row : Row) : String :=
  margin (2 * row.depth) ++ row.entry.text

/-- The rows of an expression. -/
def Expression.rows (depth : Nat) : Expression → List Row
  | .number kind numeral => [⟨depth, .number kind numeral⟩]
  | .ident name => [⟨depth, .ident name⟩]
  | .signed sign operand => ⟨depth, .unary sign⟩ :: operand.rows (depth + 1)
  | .binary op lhs rhs =>
      ⟨depth, .operator op⟩ :: (lhs.rows (depth + 1) ++ rhs.rows (depth + 1))

/-- The rows of some declarations. -/
def Declaration.rowsAll (depth : Nat) (ds : List Declaration) : List Row :=
  ds.map fun d => ⟨depth, .declaration d⟩

namespace Statement

mutual

/-- The rows of a statement. -/
def rows (depth : Nat) : Statement → List Row
  | .assign target value => ⟨depth, .assign target⟩ :: value.rows (depth + 1)
  | .declare ds => Declaration.rowsAll depth ds
  | .compound ss => ⟨depth, .keyword "begin"⟩ :: rowsAll (depth + 1) ss
  | .ifThen condition branch =>
      ⟨depth, .keyword "if"⟩ :: (condition.rows (depth + 1) ++
        ⟨depth, .keyword "then"⟩ :: branch.rows (depth + 1))
  | .ifThenElse condition branch alternative =>
      ⟨depth, .keyword "if"⟩ :: (condition.rows (depth + 1) ++
        ⟨depth, .keyword "then"⟩ :: (branch.rows (depth + 1) ++
          ⟨depth, .keyword "else"⟩ :: alternative.rows (depth + 1)))
  | .whileDo condition body =>
      ⟨depth, .keyword "while"⟩ :: (condition.rows (depth + 1) ++
        ⟨depth, .keyword "do"⟩ :: body.rows (depth + 1))

/-- The rows of some statements, one after the other. -/
def rowsAll (depth : Nat) : List Statement → List Row
  | [] => []
  | s :: ss => s.rows depth ++ rowsAll depth ss

end

end Statement

/-- The rows of a program. -/
def Program.rows (p : Program) : List Row :=
  ⟨0, .program p.name⟩ :: (Declaration.rowsAll 1 p.block.declarations ++
    ⟨1, .keyword "begin"⟩ :: Statement.rowsAll 2 p.block.body)

/-! ### The lines of an outline -/

/-- The lines of these rows, one after the other. -/
def Row.print (rows : List Row) : String :=
  closeLines (rows.map line)

namespace Row

@[simp]
theorem print_nil : print [] = "" := by
  simp [print]

@[simp]
theorem print_cons (depth : Nat) (entry : Entry) (rows : List Row) :
    print (⟨depth, entry⟩ :: rows) = outlineLine depth entry.text ++ print rows := by
  simp [print, line, outlineLine]

@[simp]
theorem print_append (rs us : List Row) : print (rs ++ us) = print rs ++ print us := by
  simp [print]

end Row

theorem Expression.print_rows (e : Expression) (depth : Nat) :
    Row.print (e.rows depth) = e.outline depth := by
  induction e generalizing depth with
  | number kind numeral => cases kind <;> simp [rows, outline, Entry.text]
  | ident name => simp [rows, outline, Entry.text]
  | signed sign operand ih => simp [rows, outline, Entry.text, ih]
  | binary op lhs rhs ihl ihr =>
      simp [rows, outline, Entry.text, ihl, ihr, String.append_assoc]

theorem Declaration.print_rowsAll (ds : List Declaration) (depth : Nat) :
    Row.print (rowsAll depth ds) = outlineAll depth ds := by
  induction ds with
  | nil => simp [rowsAll, outlineAll]
  | cons d ds ih =>
      simp only [rowsAll, outlineAll] at ih
      simp [rowsAll, outlineAll, Entry.text, ih]

namespace Statement

mutual

theorem print_rows : (s : Statement) → ∀ depth, Row.print (s.rows depth) = s.outline depth
  | .assign target value, depth => by
      simp [rows, outline, Entry.text, Expression.print_rows]
  | .declare ds, depth => Declaration.print_rowsAll ds depth
  | .compound ss, depth => by
      simp [rows, outline, Entry.text, print_rowsAll ss]
  | .ifThen condition branch, depth => by
      simp [rows, outline, Entry.text, Expression.print_rows, print_rows branch,
        String.append_assoc]
  | .ifThenElse condition branch alternative, depth => by
      simp [rows, outline, Entry.text, Expression.print_rows, print_rows branch,
        print_rows alternative, String.append_assoc]
  | .whileDo condition body, depth => by
      simp [rows, outline, Entry.text, Expression.print_rows, print_rows body,
        String.append_assoc]

theorem print_rowsAll : (ss : List Statement) → ∀ depth,
    Row.print (rowsAll depth ss) = String.join (outlines depth ss)
  | [], depth => by simp [rowsAll, outlines]
  | s :: ss, depth => by
      simp [rowsAll, outlines, print_rows s, print_rowsAll ss]

end

end Statement

theorem Program.print_rows (p : Program) : Row.print p.rows = p.outline := by
  simp [rows, outline, Entry.text, Declaration.print_rowsAll,
    Statement.print_rowsAll, Statement.outlineAll, String.append_assoc]

/-! ### Reading the lines -/

namespace Row

/-- Every row says something well spelled. -/
def AllSpelled (rows : List Row) : Prop :=
  ∀ row ∈ rows, row.entry.isWellSpelled = true

@[simp]
theorem allSpelled_nil : AllSpelled [] := by
  simp [AllSpelled]

@[simp]
theorem allSpelled_cons {depth : Nat} {entry : Entry} {rows : List Row} :
    AllSpelled (⟨depth, entry⟩ :: rows) ↔ entry.isWellSpelled = true ∧ AllSpelled rows := by
  simp [AllSpelled]

@[simp]
theorem allSpelled_append {rs us : List Row} :
    AllSpelled (rs ++ us) ↔ AllSpelled rs ∧ AllSpelled us := by
  simp [AllSpelled, or_imp, forall_and]

/-- **A line is read back**: what it says by its terminals, and how deep it stands by its length. -/
theorem line_inj {row row' : Row} (h : row.entry.isWellSpelled = true)
    (h' : row'.entry.isWellSpelled = true) (hline : row.line = row'.line) : row = row' := by
  obtain ⟨depth, entry⟩ := row
  obtain ⟨depth', entry'⟩ := row'
  have hchars : (margin (2 * depth)).toList ++ entry.text.toList =
      (margin (2 * depth')).toList ++ entry'.text.toList := by
    simpa [line] using congrArg String.toList hline
  obtain rfl : entry = entry' := by
    have hscans := (Entry.scans_text h).blanks (2 * depth)
    rw [hchars] at hscans
    exact Entry.terminals_injective (hscans.unique ((Entry.scans_text h').blanks (2 * depth')))
  have hlength := congrArg List.length hchars
  obtain rfl : depth = depth' := by
    simp only [List.length_append, margin, String.toList_ofList, List.length_replicate] at hlength
    omega
  rfl

/-- The rows are read back from their lines. -/
theorem print_inj {rs us : List Row} (hrs : AllSpelled rs) (hus : AllSpelled us)
    (h : print rs = print us) : rs = us := by
  have hfeed {rows : List Row} (hrows : AllSpelled rows) :
      ∀ l ∈ rows.map line, '\n' ∉ l.toList := by
    rw [List.forall_mem_map]
    intro row hrow
    simp [line, margin, Entry.notMem_text (hrows row hrow)]
  have hlines := closeLines_inj (hfeed hrs) (hfeed hus) h
  clear h
  induction rs generalizing us with
  | nil => exact (List.map_eq_nil_iff.1 hlines.symm).symm
  | cons r rs ih =>
      cases us with
      | nil => exact List.map_eq_nil_iff.1 hlines
      | cons u us =>
          obtain ⟨hline, hothers⟩ := List.cons_eq_cons.1 hlines
          obtain ⟨hr, hrs⟩ := allSpelled_cons.1 hrs
          obtain ⟨hu, hus⟩ := allSpelled_cons.1 hus
          rw [line_inj hr hu hline, ih hrs hus hothers]

end Row

/-! ### The rows of a well-spelled program -/

theorem Row.allSpelled_keyword (word : String) (hword : word ∈ reservedWords) (depth : Nat)
    {rows : List Row} (h : AllSpelled rows) :
    AllSpelled (⟨depth, .keyword word⟩ :: rows) :=
  allSpelled_cons.2 ⟨decide_eq_true hword, h⟩

theorem Expression.allSpelled_rows {e : Expression} (h : e.isWellSpelled = true) (depth : Nat) :
    Row.AllSpelled (e.rows depth) := by
  induction e generalizing depth with
  | number kind numeral => cases kind <;> exact Row.allSpelled_cons.2 ⟨h, Row.allSpelled_nil⟩
  | ident name => exact Row.allSpelled_cons.2 ⟨h, Row.allSpelled_nil⟩
  | signed sign operand ih => exact Row.allSpelled_cons.2 ⟨rfl, ih h (depth + 1)⟩
  | binary op lhs rhs ihl ihr =>
      obtain ⟨hl, hr⟩ := Bool.and_eq_true_iff.1 h
      exact Row.allSpelled_cons.2 ⟨rfl, Row.allSpelled_append.2 ⟨ihl hl _, ihr hr _⟩⟩

theorem Declaration.allSpelled_rowsAll {ds : List Declaration}
    (h : ds.all Declaration.isWellSpelled = true) (depth : Nat) :
    Row.AllSpelled (rowsAll depth ds) := by
  rw [rowsAll, Row.AllSpelled, List.forall_mem_map]
  exact List.all_eq_true.1 h

namespace Statement

/-- The rows of a conditional or a loop, up to those of its branch or body. -/
theorem allSpelled_header (opening closing : String) (hopening : opening ∈ reservedWords)
    (hclosing : closing ∈ reservedWords) {condition : Expression}
    (hcondition : condition.isWellSpelled = true) (depth : Nat) {later : List Row}
    (h : Row.AllSpelled later) :
    Row.AllSpelled (⟨depth, .keyword opening⟩ :: (condition.rows (depth + 1) ++
      ⟨depth, .keyword closing⟩ :: later)) := by
  have hrest := Row.allSpelled_keyword closing hclosing depth h
  exact Row.allSpelled_keyword opening hopening depth
    (Row.allSpelled_append.2 ⟨condition.allSpelled_rows hcondition _, hrest⟩)

mutual

theorem allSpelled_rows : (s : Statement) → s.isWellSpelled = true → ∀ depth,
    Row.AllSpelled (s.rows depth)
  | .assign target value, h, depth => by
      obtain ⟨htarget, hvalue⟩ := Bool.and_eq_true_iff.1 h
      exact Row.allSpelled_cons.2 ⟨htarget, value.allSpelled_rows hvalue _⟩
  | .declare ds, h, depth => by
      obtain ⟨-, hds⟩ := Bool.and_eq_true_iff.1 h
      exact Declaration.allSpelled_rowsAll hds depth
  | .compound ss, h, depth =>
      Row.allSpelled_keyword "begin" (by decide) depth (allSpelled_rowsAll ss h _)
  | .ifThen condition branch, h, depth => by
      obtain ⟨hcondition, hbranch⟩ := Bool.and_eq_true_iff.1 h
      exact allSpelled_header "if" "then" (by decide) (by decide) hcondition depth
        (allSpelled_rows branch hbranch (depth + 1))
  | .ifThenElse condition branch alternative, h, depth => by
      obtain ⟨hconditional, halternative⟩ := Bool.and_eq_true_iff.1 h
      obtain ⟨hcondition, hbranch⟩ := Bool.and_eq_true_iff.1 hconditional
      have helse := Row.allSpelled_keyword "else" (by decide) depth
        (allSpelled_rows alternative halternative (depth + 1))
      exact allSpelled_header "if" "then" (by decide) (by decide) hcondition depth
        (Row.allSpelled_append.2 ⟨allSpelled_rows branch hbranch (depth + 1), helse⟩)
  | .whileDo condition body, h, depth => by
      obtain ⟨hcondition, hbody⟩ := Bool.and_eq_true_iff.1 h
      exact allSpelled_header "while" "do" (by decide) (by decide) hcondition depth
        (allSpelled_rows body hbody (depth + 1))

theorem allSpelled_rowsAll : (ss : List Statement) → areWellSpelled ss = true → ∀ depth,
    Row.AllSpelled (rowsAll depth ss)
  | [], _, _ => Row.allSpelled_nil
  | s :: ss, h, depth => by
      obtain ⟨hs, hss⟩ := Bool.and_eq_true_iff.1 h
      exact Row.allSpelled_append.2 ⟨allSpelled_rows s hs depth, allSpelled_rowsAll ss hss depth⟩

end

end Statement

theorem Program.allSpelled_rows {p : Program} (h : p.isWellSpelled = true) :
    Row.AllSpelled p.rows := by
  obtain ⟨hheader, hbody⟩ := Bool.and_eq_true_iff.1 h
  obtain ⟨hname, hdeclarations⟩ := Bool.and_eq_true_iff.1 hheader
  have hbegin := Row.allSpelled_keyword "begin" (by decide) 1
    (Statement.allSpelled_rowsAll p.block.body hbody 2)
  have hdeclared := Declaration.allSpelled_rowsAll hdeclarations 1
  exact Row.allSpelled_cons.2 ⟨hname, Row.allSpelled_append.2 ⟨hdeclared, hbegin⟩⟩

end MiniPascal
