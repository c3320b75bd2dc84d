import Mathlib.Data.List.Basic
import MiniPascal.Diagnostic
import MiniPascal.Proofs.FaultPlaces

/-!
# What a diagnostic shows

The excerpt of a diagnostic is never missing: a fault points at a character, and every
character stands on a line of its text.  The caret in the row below the line stands
under that character, since the number of the line takes as many columns as there are
blanks below it, and the escapes of both rows take none.
-/

namespace MiniPascal

/-! ### Lines of a text -/

/-- A character that ends no line goes in front of the first one. -/
theorem textLines_cons {c : Char} {cs : List Char} (hfeed : c ≠ '\n')
    (hreturn : c = '\r' → cs.head? ≠ some '\n') :
    textLines (c :: cs) = (c :: (textLines cs).headD []) :: (textLines cs).tail := by
  rw [textLines.eq_4 c cs hfeed]
  · cases textLines cs <;> rfl
  · rintro ds rfl rfl
    simp at hreturn

theorem lastLine_append_lineFeed (cs ds : List Char) :
    lastLine (cs ++ '\n' :: ds) = lastLine ds := by
  induction ds using List.reverseRecOn with
  | nil => exact lastLine_concat_lineFeed cs
  | append_singleton ds d ih =>
      rw [← List.cons_append, ← List.append_assoc]
      by_cases hd : d = '\n'
      · rw [hd, lastLine_concat_lineFeed, lastLine_concat_lineFeed]
      · rw [lastLine_concat hd, lastLine_concat hd, ih]

/-- In front of a whole line nothing belongs to the last one. -/
theorem lastLine_cons_of_mem {cs : List Char} (h : '\n' ∈ cs) (c : Char) :
    lastLine (c :: cs) = lastLine cs := by
  obtain ⟨before, behind, rfl⟩ := List.append_of_mem h
  rw [← List.cons_append, lastLine_append_lineFeed, lastLine_append_lineFeed]

theorem lastLine_of_notMem {cs : List Char} (h : '\n' ∉ cs) : lastLine cs = cs :=
  lastLine_append [] h

/-- The character behind `before` has a line, and unless it ends that line it stands on it, behind
what there is of the line in front of it. -/
def HasLine (before : List Char) (c : Char) (behind : List Char) : Prop :=
  ∃ line, (textLines (before ++ c :: behind))[before.count '\n']? = some line ∧
    (c ≠ '\n' → c ≠ '\r' → lastLine before ++ [c] <+: line)

namespace HasLine

variable {before behind : List Char} {c d : Char}

theorem nil (c : Char) (behind : List Char) : HasLine [] c behind := by
  by_cases hfeed : c = '\n'
  · subst hfeed
    exact ⟨[], by simp [textLines], by simp⟩
  by_cases hreturn : c = '\r' ∧ behind.head? = some '\n'
  · obtain ⟨rfl, hhead⟩ := hreturn
    obtain ⟨cs, rfl⟩ := List.head?_eq_some_iff.1 hhead
    exact ⟨[], by simp [textLines], by simp⟩
  · have hlines := textLines_cons hfeed fun hc hhead => hreturn ⟨hc, hhead⟩
    exact ⟨c :: (textLines behind).headD [], by simp [hlines], fun _ _ => ⟨_, rfl⟩⟩

theorem lineFeed (h : HasLine before c behind) : HasLine ('\n' :: before) c behind := by
  obtain ⟨line, hline, hends⟩ := h
  refine ⟨line, by simpa [textLines] using hline, ?_⟩
  have hlast : lastLine ('\n' :: before) = lastLine before := lastLine_append_lineFeed [] before
  rwa [hlast]

/-- A carriage return and a line feed together end one line. -/
theorem carriageReturn (hhead : (before ++ c :: behind).head? = some '\n')
    (h : HasLine before c behind) : HasLine ('\r' :: before) c behind := by
  cases before with
  | nil =>
      obtain rfl : c = '\n' := by simpa using hhead
      exact ⟨[], by simp [textLines], by simp⟩
  | cons d before =>
      obtain rfl : d = '\n' := by simpa using hhead
      obtain ⟨line, hline, hends⟩ := h
      refine ⟨line, by simpa [textLines] using hline, ?_⟩
      rwa [lastLine_cons_of_mem List.mem_cons_self]

/-- A character that ends no line shifts the first one. -/
theorem cons (hfeed : d ≠ '\n') (hreturn : d = '\r' → (before ++ c :: behind).head? ≠ some '\n')
    (h : HasLine before c behind) : HasLine (d :: before) c behind := by
  obtain ⟨line, hline, hends⟩ := h
  have hcount : (d :: before).count '\n' = before.count '\n' := by simp [hfeed]
  rw [HasLine, hcount, List.cons_append, textLines_cons hfeed hreturn]
  by_cases hmem : '\n' ∈ before
  · obtain ⟨k, hk⟩ := Nat.exists_eq_succ_of_ne_zero (List.count_pos_iff.2 hmem).ne'
    rw [lastLine_cons_of_mem hmem, hk]
    exact ⟨line, by simpa [hk] using hline, hends⟩
  · rw [List.count_eq_zero.2 hmem] at hline ⊢
    have hfirst : (textLines (before ++ c :: behind)).headD [] = line := by
      simp [List.head?_eq_getElem?, hline]
    have hlast : lastLine (d :: before) = d :: lastLine before := by
      have hall : '\n' ∉ d :: before := by simp [hmem, Ne.symm hfeed]
      rw [lastLine_of_notMem hall, lastLine_of_notMem hmem]
    rw [hfirst, hlast]
    exact ⟨d :: line, rfl, fun hc hc' => (List.prefix_cons_inj d).2 (hends hc hc')⟩

end HasLine

/-- Every character of a text has a line. -/
theorem hasLine (before : List Char) (c : Char) (behind : List Char) : HasLine before c behind := by
  induction before with
  | nil => exact .nil c behind
  | cons d before ih =>
      by_cases hfeed : d = '\n'
      · subst hfeed
        exact ih.lineFeed
      by_cases hreturn : d = '\r' ∧ (before ++ c :: behind).head? = some '\n'
      · obtain ⟨rfl, hhead⟩ := hreturn
        exact ih.carriageReturn hhead
      · exact ih.cons hfeed fun hd hhead => hreturn ⟨hd, hhead⟩

/-- The line of a place is there, and what is quoted is the stretch of it that ends at the column of
the place. -/
theorem IsPlaceIn.exists_line {text : List Char} {quoted : Option String} {line column : Nat}
    (h : IsPlaceIn text quoted (line, column)) :
    1 ≤ line ∧ 1 ≤ column ∧ ∃ shown, (textLines text)[line - 1]? = some shown ∧
      ∀ lexeme, quoted = some lexeme → ∃ front behind,
        shown = front ++ lexeme.toList ++ behind ∧ (front ++ lexeme.toList).length = column := by
  obtain ⟨before, c, behind, rfl, hplace, hquoted⟩ := h
  obtain ⟨rfl, rfl⟩ := Prod.mk.inj hplace
  obtain ⟨shown, hshown, hends⟩ := hasLine before c behind
  refine ⟨Nat.le_add_right .., Nat.le_add_right .., shown, ?_, fun lexeme hlexeme => ?_⟩
  · rwa [Nat.add_sub_cancel_left]
  · obtain ⟨hfeed, hreturn, front, hfront⟩ := hquoted lexeme hlexeme
    obtain ⟨rest, rfl⟩ := hends hfeed hreturn
    refine ⟨front, rest, by rw [hfront], ?_⟩
    rw [hfront, List.length_append, List.length_singleton, Nat.add_comm]

/-! ### Escapes -/

/-- The characters that cover columns.  An escape goes from the escape character through the next
`m`; `inEscape` says that one is open. -/
def dropEscapes (inEscape : Bool) : List Char → List Char
  | [] => []
  | c :: cs =>
      if inEscape then
        dropEscapes (c != 'm') cs
      else if c == '\x1b' then
        dropEscapes true cs
      else
        c :: dropEscapes false cs

/-- An open escape is dropped through its `m`. -/
theorem dropEscapes_of_notMem {code : List Char} (h : 'm' ∉ code) (ds : List Char) :
    dropEscapes true (code ++ 'm' :: ds) = dropEscapes false ds := by
  induction code with
  | nil => rfl
  | cons c code ih =>
      obtain ⟨hc, hcode⟩ : c ≠ 'm' ∧ 'm' ∉ code := by simpa [eq_comm] using h
      have hopen : (c != 'm') = true := by simpa using hc
      rw [List.cons_append, dropEscapes, if_pos rfl, hopen, ih hcode]

/-- The characters are shown as `shown`, whatever stands behind them. -/
def ShowsAs (cs shown : List Char) : Prop :=
  ∀ ds, dropEscapes false (cs ++ ds) = shown ++ dropEscapes false ds

namespace ShowsAs

theorem of_notMem {cs : List Char} (h : '\x1b' ∉ cs) : ShowsAs cs cs := by
  intro ds
  induction cs with
  | nil => rfl
  | cons c cs ih =>
      obtain ⟨hc, hcs⟩ : c ≠ '\x1b' ∧ '\x1b' ∉ cs := by simpa [eq_comm] using h
      simp [dropEscapes, hc, ih hcs]

theorem append {cs ds shown other : List Char} (hcs : ShowsAs cs shown)
    (hds : ShowsAs ds other) : ShowsAs (cs ++ ds) (shown ++ other) := by
  intro es
  rw [List.append_assoc, hcs, hds, List.append_assoc]

/-- An escape takes no columns. -/
theorem escape {code : String} (h : 'm' ∉ code.toList) :
    ShowsAs ("\x1b[" ++ code ++ "m").toList [] := by
  intro ds
  have hcode : 'm' ∉ '[' :: code.toList := by simp [h]
  simpa [dropEscapes] using dropEscapes_of_notMem hcode ds

end ShowsAs

/-- The escape that switches a style on. -/
def Style.opening (style : Style) : String :=
  "\x1b[" ++ style.onCode ++ "m"

/-- The escape that switches a style off. -/
def Style.closing (style : Style) : String :=
  "\x1b[" ++ style.offCode ++ "m"

theorem Style.wrap_eq (style : Style) (text : String) :
    style.wrap text = style.opening ++ text ++ style.closing := by
  simp [wrap, opening, closing, String.append_assoc]

theorem Style.opening_showsAs (style : Style) : ShowsAs style.opening.toList [] :=
  .escape (by cases style <;> decide)

theorem Style.closing_showsAs (style : Style) : ShowsAs style.closing.toList [] :=
  .escape (by cases style <;> decide)

/-- A text without escapes of its own is shown in every style as it is. -/
theorem Style.wrap_showsAs (style : Style) {text : String} (h : '\x1b' ∉ text.toList) :
    ShowsAs (style.wrap text).toList text.toList := by
  have hshows := (style.opening_showsAs.append (.of_notMem h)).append style.closing_showsAs
  rw [style.wrap_eq, String.toList_append, String.toList_append]
  simpa using hshows

/-! ### Excerpts -/

/-- Two rows, one below the other: a source line behind a margin, and a caret behind blanks. -/
structure CaretRows where
  margin : List Char
  sourceLine : List Char
  blanks : List Char
  remark : List Char

namespace CaretRows

/-- The rows are printed as two of these lines, one right after the other. -/
def ArePrinted (rows : CaretRows) (lines : List StyledLine) : Prop :=
  ∃ above upper lower below, lines = above ++ upper :: lower :: below ∧
    upper.render.toList = rows.margin ++ rows.sourceLine ++ ['\n'] ∧
    lower.render.toList = rows.blanks ++ '^' :: (rows.remark ++ ['\n'])

theorem ArePrinted.append {rows : CaretRows} {lines : List StyledLine} (h : rows.ArePrinted lines)
    (before behind : List StyledLine) : rows.ArePrinted (before ++ lines ++ behind) := by
  obtain ⟨above, upper, lower, below, rfl, hupper, hlower⟩ := h
  exact ⟨before ++ above, upper, lower, below ++ behind, by simp, hupper, hlower⟩

/-- The source line begins behind the number of the line, and the caret stands `column - 1` columns
to the right of where it begins. -/
structure PointAt (rows : CaretRows) (line column : Nat) : Prop where
  margin : ShowsAs rows.margin (Fault.gutter line).toList
  blanks : ShowsAs rows.blanks (List.replicate ((Fault.gutter line).length + (column - 1)) ' ')

end CaretRows

namespace Fault

theorem gutter_notMem (line : Nat) : '\x1b' ∉ (gutter line).toList := by
  have hdigits : '\x1b' ∉ Nat.toDigits 10 line := fun hmem =>
    absurd (Nat.isDigit_of_mem_toDigits (by decide) (by decide) hmem) (by decide)
  simp [gutter, alignRight, Nat.toString_eq_repr, Nat.repr_eq_ofList_toDigits, hdigits]

/-- The escape of the caret comes before the blanks, so the row is taken apart behind both. -/
theorem render_caret (width : Nat) :
    (StyledLine.render [⟨[.red], String.ofList (List.replicate width ' ') ++ "^"⟩,
        ⟨[.red], " error here"⟩]).toList =
      (Style.red.opening.toList ++ List.replicate width ' ') ++
        '^' :: ((Style.red.closing ++ Style.red.wrap " error here").toList ++ ['\n']) := by
  simp [StyledLine.render, Span.render, Style.wrap_eq]

/-- An excerpt shows the source line, with a caret under the column. -/
theorem exists_rows (sourceLine : List Char) (line column : Nat) :
    ∃ rows : CaretRows, rows.sourceLine = sourceLine ∧
      rows.ArePrinted (excerpt sourceLine line column) ∧ rows.PointAt line column := by
  have hnumber : (StyledLine.render [⟨[.brightBlack], gutter line⟩,
      .plain (String.ofList sourceLine)]).toList =
        (Style.brightBlack.wrap (gutter line)).toList ++ sourceLine ++ ['\n'] := by
    simp [StyledLine.render, Span.render, Span.plain]
  have hblanks (width : Nat) : ShowsAs (Style.red.opening.toList ++ List.replicate width ' ')
      (List.replicate width ' ') := Style.red.opening_showsAs.append (.of_notMem (by simp))
  have hmargin := Style.brightBlack.wrap_showsAs (gutter_notMem line)
  exact ⟨⟨_, sourceLine, _, _⟩, rfl, ⟨[_], _, _, [_], rfl, hnumber, render_caret _⟩,
    hmargin, hblanks _⟩

/-- The excerpt of a placed fault stands in its diagnostic, if the text has its line. -/
theorem diagnostic_of_line {fault : Fault} {source : String} {line column : Nat}
    {sourceLine : List Char} (hline : fault.line = some line) (hcolumn : fault.column = some column)
    (hsource : (textLines source.toList)[line - 1]? = some sourceLine) (label : String) :
    ∃ above below,
      fault.diagnostic label source = above ++ excerpt sourceLine line column ++ below := by
  have hpointer : fault.pointer source =
      [.plain ("  --> line " ++ toString line ++ ", column " ++ toString column)] ::
        excerpt sourceLine line column := by
    simp [pointer, hline, hcolumn, hsource]
  rw [diagnostic, hpointer]
  exact ⟨[_, _], fault.suggestions, rfl⟩

end Fault

/-- **Diagnostics point at the right text.**  Whatever text is refused, by the scanner or by the
parser, the fault has a place unless the text has no tokens.  The text has the line of that place,
and the diagnostic shows it, with a caret below the column of the place; what the fault quotes is
the stretch of that line that ends there. -/
theorem parseText_fault_isShown {source : String} {fault : Fault}
    (h : parseText source = .error fault) (label : String) :
    fault = .unplaced .noTokensToParse ∨
      fault.kind ≠ .noTokensToParse ∧ ∃ (line column : Nat) (rows : CaretRows),
        fault.line = some line ∧ fault.column = some column ∧ 1 ≤ line ∧ 1 ≤ column ∧
        (textLines source.toList)[line - 1]? = some rows.sourceLine ∧
        rows.ArePrinted (fault.diagnostic label source) ∧ rows.PointAt line column ∧
        ∀ lexeme, fault.lexeme = some lexeme → ∃ front behind,
          rows.sourceLine = front ++ lexeme.toList ++ behind ∧
            (front ++ lexeme.toList).length = column := by
  refine (parseText_fault_pointsIn h).imp id fun hpoints => ⟨hpoints.kind, ?_⟩
  obtain ⟨line, column, hline, hcolumn, hplace⟩ := hpoints.place
  obtain ⟨hline', hcolumn', sourceLine, hsource, hquoted⟩ := hplace.exists_line
  obtain ⟨above, below, hdiagnostic⟩ := Fault.diagnostic_of_line hline hcolumn hsource label
  obtain ⟨rows, rfl, hprinted, hpoint⟩ := Fault.exists_rows sourceLine line column
  rw [hdiagnostic]
  exact ⟨line, column, rows, hline, hcolumn, hline', hcolumn', hsource,
    hprinted.append above below, hpoint, hquoted⟩

/-- A string that holds a carriage return stands where a value has to, on a line that ends with a
carriage return too. -/
theorem parseText_fault_isShown_string :
    let source := "program P;\r\nbegin\r\n  x := 'a\rb';\r\n"
    let fault : Fault := ⟨.invalidFactor, some "'a\rb'", some 3, some 12⟩
    parseText source = .error fault ∧ ∃ rows : CaretRows,
      (textLines source.toList)[2]? = some rows.sourceLine ∧
      rows.ArePrinted (fault.diagnostic Fault.parseLabel source) ∧ rows.PointAt 3 12 ∧
      ∃ front behind, rows.sourceLine = front ++ "'a\rb'".toList ++ behind ∧
        (front ++ "'a\rb'".toList).length = 12 := by
  intro source fault
  have hfault : parseText source = .error fault := by decide +kernel
  refine ⟨hfault, ?_⟩
  rcases parseText_fault_isShown hfault Fault.parseLabel with hnone |
    ⟨-, line, column, rows, hline, hcolumn, -, -, hsource, hprinted, hpoint, hquoted⟩
  · exact absurd (congrArg Fault.kind hnone) (by decide)
  · obtain rfl : 3 = line := Option.some.inj hline
    obtain rfl : 12 = column := Option.some.inj hcolumn
    exact ⟨rows, hsource, hprinted, hpoint, hquoted _ rfl⟩

end MiniPascal
