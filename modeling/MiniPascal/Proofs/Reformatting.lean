import Mathlib.Data.List.Basic
import MiniPascal.Command.Reformat
import MiniPascal.Proofs.FileWrites
import MiniPascal.Proofs.ParsedLayout

/-!
# Laying out files

The modes of the command agree: one prints the canonical layout of a file, one writes it into the
file, and one compares it with the file.  A layout holds no carriage return, so the comparison
joins the line ends of the file alone.  A file that cannot be parsed is left as it is.
-/

namespace MiniPascal

/-! ### Carriage returns -/

/-- The text holds no carriage return. -/
def HasNoReturn (text : String) : Prop :=
  '\r' ∉ text.toList

instance : DecidablePred HasNoReturn :=
  fun text => inferInstanceAs (Decidable ('\r' ∉ text.toList))

@[simp]
theorem hasNoReturn_append {text other : String} :
    HasNoReturn (text ++ other) ↔ HasNoReturn text ∧ HasNoReturn other := by
  simp [HasNoReturn]

theorem hasNoReturn_margin (width : Nat) : HasNoReturn (margin width) := by
  simp [HasNoReturn, margin]

theorem joinLineEnds_of_notMem_return {cs : List Char} (h : '\r' ∉ cs) : joinLineEnds cs = cs := by
  induction cs with
  | nil => rfl
  | cons c cs ih =>
      obtain ⟨hc, hothers⟩ : '\r' ≠ c ∧ '\r' ∉ cs := by simpa using h
      rw [joinLineEnds, ih hothers]
      rintro ds rfl
      exact absurd rfl hc

/-- Where there is no carriage return no line ends are joined. -/
theorem HasNoReturn.normalizeLineEnds {text : String} (h : HasNoReturn text) :
    normalizeLineEnds text = text := by
  rw [MiniPascal.normalizeLineEnds, joinLineEnds_of_notMem_return h, String.ofList_toList]

theorem hasNoReturn_of_isName {name : String} (h : isName name = true) : HasNoReturn name :=
  notMem_of_isName h (by decide)

theorem hasNoReturn_of_admits {kind : NumberKind} {numeral : String}
    (h : kind.admits numeral = true) : HasNoReturn numeral :=
  notMem_of_admits h (by decide) (by decide)

theorem Expression.hasNoReturn_parenthesize (needed : Bool) {text : String}
    (h : HasNoReturn text) : HasNoReturn (parenthesize needed text) := by
  cases needed with
  | false => exact h
  | true => simp +decide [parenthesize, h]

theorem Expression.hasNoReturn_layout {e : Expression} (h : e.isWellSpelled = true) :
    HasNoReturn e.layout := by
  induction e with
  | number kind numeral => exact hasNoReturn_of_admits h
  | ident name => exact hasNoReturn_of_isName h
  | signed sign operand ih =>
      have hsign : HasNoReturn sign.spelling := by cases sign <;> decide
      simp +decide [layout, hsign, hasNoReturn_parenthesize _ (ih h)]
  | binary op lhs rhs ihl ihr =>
      obtain ⟨hl, hr⟩ := Bool.and_eq_true_iff.1 h
      have hop : HasNoReturn op.spelling := by cases op <;> decide
      simp +decide [layout, hop, hasNoReturn_parenthesize _ (ihl hl),
        hasNoReturn_parenthesize _ (ihr hr)]

theorem hasNoReturn_intercalate {names : List String} (h : names.all isName = true) :
    HasNoReturn (String.intercalate ", " names) := by
  induction names with
  | nil => decide
  | cons name names ih =>
      obtain ⟨hname, hothers⟩ := Bool.and_eq_true_iff.1 h
      have hfirst := hasNoReturn_of_isName hname
      cases names with
      | nil => simpa using hfirst
      | cons other names =>
          rw [String.intercalate_cons_cons]
          simpa +decide [hfirst] using ih hothers

theorem Declaration.hasNoReturn_layoutAll {ds : List Declaration}
    (h : ds.all Declaration.isWellSpelled = true) (indent : Nat) :
    HasNoReturn (layoutAll indent ds) := by
  induction ds with
  | nil => simp +decide [layoutAll, HasNoReturn]
  | cons d ds ih =>
      obtain ⟨hd, hds⟩ := Bool.and_eq_true_iff.1 h
      obtain ⟨-, hnames⟩ := Bool.and_eq_true_iff.1 hd
      have htype : HasNoReturn d.type.spelling := by cases d.type <;> decide
      have hothers := ih hds
      simp only [layoutAll, List.map_cons, String.join_cons, hasNoReturn_append] at hothers ⊢
      simp +decide [layout, header, htype, hasNoReturn_margin,
        hasNoReturn_intercalate hnames, hothers]

namespace Statement

mutual

theorem hasNoReturn_layout : (s : Statement) → s.isWellSpelled = true → ∀ indent : Nat,
    HasNoReturn (s.layout indent)
  | .assign target value, h, indent => by
      obtain ⟨htarget, hvalue⟩ := Bool.and_eq_true_iff.1 h
      simp +decide [layout, hasNoReturn_margin, hasNoReturn_of_isName htarget,
        Expression.hasNoReturn_layout hvalue]
  | .declare ds, h, indent => by
      obtain ⟨-, hds⟩ := Bool.and_eq_true_iff.1 h
      exact Declaration.hasNoReturn_layoutAll hds indent
  | .compound ss, h, indent => by
      have hbody := hasNoReturn_layoutAll ss h (indent + indentStep)
      simp only [layoutAll] at hbody
      simp +decide [layout, hbody, hasNoReturn_margin]
  | .ifThen condition branch, h, indent => by
      obtain ⟨hcondition, hbranch⟩ := Bool.and_eq_true_iff.1 h
      simp +decide [layout, hasNoReturn_margin, Expression.hasNoReturn_layout hcondition,
        hasNoReturn_layout branch hbranch]
  | .ifThenElse condition branch alternative, h, indent => by
      obtain ⟨hconditional, halternative⟩ := Bool.and_eq_true_iff.1 h
      obtain ⟨hcondition, hbranch⟩ := Bool.and_eq_true_iff.1 hconditional
      simp +decide [layout, hasNoReturn_margin,
        Expression.hasNoReturn_layout hcondition, hasNoReturn_layout branch hbranch,
        hasNoReturn_layout alternative halternative]
  | .whileDo condition body, h, indent => by
      obtain ⟨hcondition, hbody⟩ := Bool.and_eq_true_iff.1 h
      simp +decide [layout, hasNoReturn_margin, Expression.hasNoReturn_layout hcondition,
        hasNoReturn_layout body hbody]

theorem hasNoReturn_layoutAll : (ss : List Statement) → areWellSpelled ss = true → ∀ indent : Nat,
    HasNoReturn (layoutAll indent ss)
  | [], _, _ => by simp [HasNoReturn]
  | s :: ss, h, indent => by
      obtain ⟨hs, hss⟩ := Bool.and_eq_true_iff.1 h
      simp [hasNoReturn_layout s hs, hasNoReturn_layoutAll ss hss]

end

end Statement

/-- No carriage return gets into the layout of a well-spelled program. -/
theorem Program.hasNoReturn_layout {p : Program} (h : p.isWellSpelled = true) :
    HasNoReturn p.layout := by
  obtain ⟨hheader, hbody⟩ := Bool.and_eq_true_iff.1 h
  obtain ⟨hname, hdeclarations⟩ := Bool.and_eq_true_iff.1 hheader
  simp +decide [layout, hasNoReturn_of_isName hname,
    Declaration.hasNoReturn_layoutAll hdeclarations, Statement.hasNoReturn_layoutAll _ hbody]

/-! ### Runs -/

namespace Reformat

/-- What a mode of the command answers for a path in a file tree, and what it leaves behind. -/
def play (t : FileTree) (stopwatch : Nat → LapTimes) (file : String) (mode : Mode) :
    Nat × World :=
  (run mode file).run (World.start t stopwatch)

variable {t : FileTree} {file content : String}

/-- A file that is not parsed is refused, and only the error output tells of it. -/
theorem play_of_error (stopwatch : Nat → LapTimes) (hfile : t.Holds file content) {fault : Fault}
    (hparse : parseText content = .error fault) (mode : Mode) :
    ∃ errors, play t stopwatch file mode = (1, ⟨t, stopwatch, 0, "", errors⟩) := by
  have hread : t.read file = .ok content := hfile.read
  rcases scanText_of_parseText_error hparse with hscan | ⟨ts, hscan, htokens⟩
  · exact ⟨_, by simp only [play, run, Session.run, World.start, hread, hscan]; rfl⟩
  · exact ⟨_, by simp only [play, run, Session.run, World.start, hread, hscan, htokens]; rfl⟩

/-- A file that is parsed is laid out. -/
theorem play_of_ok (stopwatch : Nat → LapTimes) (hfile : t.Holds file content) {p : Program}
    (hparse : parseText content = .ok p) (mode : Mode) :
    play t stopwatch file mode =
      (finish mode file content p.layout).run (World.start t stopwatch) := by
  have hread : t.read file = .ok content := hfile.read
  obtain ⟨ts, hscan, htokens⟩ := scanText_of_parseText hparse
  simp only [play, run, Session.run, World.start, hread, hscan, htokens]

/-- **The modes agree.**  A file that is not parsed is refused by every mode, which prints nothing
on the standard output and changes no file.  For every other file one mode prints the layout of its
program, one leaves just that layout in the file, and one accepts the file if it is the layout
once its line ends are joined. -/
theorem play_modes_agree (stopwatch : Nat → LapTimes) (hroot : t.IsRooted)
    (hfile : t.Holds file content) :
    match parseText content with
    | .error _ => ∀ mode,
        (play t stopwatch file mode).1 = 1 ∧ (play t stopwatch file mode).2.output = "" ∧
          (play t stopwatch file mode).2.files = t
    | .ok p =>
        ((play t stopwatch file .print).1 = 0 ∧
          (play t stopwatch file .print).2.output = p.layout ∧
          (play t stopwatch file .print).2.files = t) ∧
        ((play t stopwatch file .write).1 = 0 ∧
          (play t stopwatch file .write).2.output = "" ∧
          (play t stopwatch file .write).2.files.Holds file p.layout) ∧
        ((play t stopwatch file .check).1 = 0 ↔ normalizeLineEnds content = p.layout) ∧
          (play t stopwatch file .check).2.files = t := by
  cases hparse : parseText content with
  | error fault =>
      intro mode
      obtain ⟨errors, hplay⟩ := play_of_error stopwatch hfile hparse mode
      simp [hplay]
  | ok p =>
      have hplay := play_of_ok stopwatch hfile hparse
      refine ⟨?_, ?_, ?_⟩
      · simp [hplay, finish, Session.run, World.start, pure]
      · obtain ⟨u, hwrite, hholds⟩ := hfile.exists_write hroot p.layout
        simp [hplay, finish, Session.run, World.start, World.attempt, hwrite, hholds, pure]
      · have hlayout : normalizeLineEnds p.layout = p.layout :=
          (Program.hasNoReturn_layout (parseText_sound hparse).1).normalizeLineEnds
        by_cases hsame : normalizeLineEnds content = p.layout
        · simp [hplay, finish, Session.run, World.start, hlayout, hsame, pure]
        · have hother : p.layout ≠ normalizeLineEnds content := Ne.symm hsame
          simp [hplay, finish, Session.run, World.start, hlayout, hsame, hother, pure]

/-- The text of a program whose lines end with carriage returns. -/
def returnsText : String :=
  "program P;\r\nbegin\r\nend.\r\n"

/-- A directory with that program in it. -/
def returnsTree : FileTree :=
  ⟨.directory [("p.pas", .file returnsText.toUTF8)], []⟩

/-- The file is accepted, though it is not the layout, and it would be written over. -/
theorem play_modes_agree_returns :
    returnsTree.IsRooted ∧ returnsTree.Holds "p.pas" returnsText ∧
      (play returnsTree (fun _ => ⟨0, 0, 0⟩) "p.pas" .check).1 = 0 ∧
      (play returnsTree (fun _ => ⟨0, 0, 0⟩) "p.pas" .write).2.files.Holds "p.pas"
        "program P;\nbegin\nend.\n" := by
  have hroot : returnsTree.IsRooted := rfl
  have hfile : returnsTree.Holds "p.pas" returnsText := by rfl
  have hparse : parseText returnsText = .ok ⟨"P", [], []⟩ := by decide +kernel
  have hagree := play_modes_agree (fun _ => ⟨0, 0, 0⟩) hroot hfile
  rw [hparse] at hagree
  obtain ⟨-, hwrite, hcheck, -⟩ := hagree
  exact ⟨hroot, hfile, hcheck.2 (by decide), hwrite.2.2⟩

end Reformat

end MiniPascal
