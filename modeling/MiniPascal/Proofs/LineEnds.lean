import Mathlib.Data.List.Basic
import MiniPascal.Proofs.FaultPlaces
import MiniPascal.Proofs.ReadingContexts
import MiniPascal.Proofs.RegistryHistories
import MiniPascal.Text.Lines

/-!
# The ends of lines

A text is scanned alike whether its lines end with a line feed or with a carriage return in
front of it.  The carriage return is a blank, a part of a comment, or what a string that is
not closed ends with; no other piece goes up to it.  Behind every line feed both scans
stand at the same place again, so they run side by side (`Cursor.Joins`), and only the
column of a string that is not closed may tell them apart.
-/

namespace MiniPascal

/-! ### Joining line ends -/

variable {c : Char} {cs body rest : List Char}

theorem joinLineEnds_cons (h : c ≠ '\r' ∨ cs.head? ≠ some '\n') :
    joinLineEnds (c :: cs) = c :: joinLineEnds cs := by
  rw [joinLineEnds]
  rintro ds rfl rfl
  simp at h

/-- What stays on its line is not changed, whatever follows it. -/
theorem joinLineEnds_append (hbody : StaysOnLine body) (rest : List Char) :
    joinLineEnds (body ++ rest) = body ++ joinLineEnds rest := by
  induction body with
  | nil => rfl
  | cons c body ih =>
      obtain ⟨hfeed, hreturn⟩ := hbody
      have hothers : StaysOnLine body := by
        refine ⟨fun hmem => hfeed (List.mem_cons_of_mem c hmem), fun hlast => hreturn ?_⟩
        cases body with
        | nil => simp at hlast
        | cons d body => simpa using hlast
      have hhead : c ≠ '\r' ∨ (body ++ rest).head? ≠ some '\n' := by
        cases body with
        | nil => exact .inl (by simpa using hreturn)
        | cons d body => exact .inr (by simp_all [eq_comm])
      rw [List.cons_append, joinLineEnds_cons hhead, ih hothers, List.cons_append]

/-- Without line feeds nothing is joined. -/
theorem joinLineEnds_of_notMem (hcs : '\n' ∉ cs) : joinLineEnds cs = cs := by
  induction cs with
  | nil => rfl
  | cons c cs ih =>
      obtain ⟨hc, hothers⟩ : '\n' ≠ c ∧ '\n' ∉ cs := by simpa using hcs
      have hhead : cs.head? ≠ some '\n' := fun hhead => hothers (List.mem_of_mem_head? hhead)
      rw [joinLineEnds_cons (.inr hhead), ih hothers]

/-- At the end of a line a carriage return may be left out. -/
theorem joinLineEnds_line (hbody : '\n' ∉ body) (rest : List Char) :
    ∃ body', body' <+: body ∧
      joinLineEnds (body ++ '\n' :: rest) = body' ++ '\n' :: joinLineEnds rest := by
  induction body with
  | nil => exact ⟨[], List.prefix_rfl, joinLineEnds_cons (.inl (by decide))⟩
  | cons c body ih =>
      obtain ⟨hc, hothers⟩ : '\n' ≠ c ∧ '\n' ∉ body := by simpa using hbody
      obtain ⟨body', hpart, hjoined⟩ := ih hothers
      by_cases hreturn : c = '\r' ∧ body = []
      · obtain ⟨rfl, rfl⟩ := hreturn
        exact ⟨[], List.nil_prefix, rfl⟩
      · have hhead : c ≠ '\r' ∨ (body ++ '\n' :: rest).head? ≠ some '\n' := by
          cases body with
          | nil => exact .inl (by simpa using hreturn)
          | cons d body => exact .inr (by simp_all [eq_comm])
        refine ⟨c :: body', (List.prefix_cons_inj c).2 hpart, ?_⟩
        rw [List.cons_append, joinLineEnds_cons hhead, hjoined, List.cons_append]

/-- A text begins as before, or with the line feed that a carriage return stood in front of. -/
theorem beginsAlike_joinLineEnds (cs : List Char) : BeginsAlike cs (joinLineEnds cs) := by
  unfold joinLineEnds
  split
  · exact .inl rfl
  · exact .inr rfl
  · exact .inl rfl

theorem head?_joinLineEnds_slash (cs : List Char) :
    ((joinLineEnds cs).head? == some '/') = (cs.head? == some '/') := by
  unfold joinLineEnds
  split <;> rfl

/-! ### Strings that are not closed -/

theorem notMem_of_staysQuoted (hcs : ∀ d ∈ cs, staysQuoted d = true) : '\n' ∉ cs :=
  fun hmem => absurd (hcs _ hmem) (by decide)

/-- A string that is not closed goes on through the end of the text, or through a line feed. -/
theorem munch_unclosed_cases {chars : List Char} (h : munch c cs = (.unclosed chars, rest)) :
    (chars = c :: cs ∧ rest = [] ∧ '\n' ∉ cs) ∨
    (isQuote c = true ∧ ∃ body, cs = body ++ '\n' :: rest ∧ chars = c :: (body ++ ['\n']) ∧
      ∀ d ∈ body, staysQuoted d = true) := by
  have hcovers := covers_munch c cs .start
  have happend := munch_append c cs
  rw [h] at hcovers happend
  simp only [Piece.reading, Piece.chars] at hcovers happend
  cases hcovers with
  | stray hkind => simp [Fault.placed] at hkind
  | @unclosed _ quote body _ _ hquote hbody =>
      obtain ⟨rfl, hcs⟩ := List.cons.inj happend
      exact .inr ⟨hquote, body, by simp [← hcs], rfl, hbody⟩
  | @unclosedAtEnd _ quote body _ _ hbody =>
      rw [List.append_nil] at happend
      obtain ⟨rfl, rfl⟩ := List.cons.inj happend
      exact .inl ⟨rfl, rfl, notMem_of_staysQuoted hbody⟩

/-! ### Cursors side by side -/

/-- The faults are the same, but for a string that is not closed only the lines need to be. -/
structure Fault.Matches (fault other : Fault) : Prop where
  kind : fault.kind = other.kind
  lexeme : fault.lexeme = other.lexeme
  line : fault.line = other.line
  column : fault.kind ≠ .stringNotClosed → fault.column = other.column

theorem Fault.Matches.eq {fault other : Fault} (h : fault.Matches other)
    (hkind : fault.kind ≠ .stringNotClosed) : fault = other := by
  have hplaced := h.column hkind
  obtain ⟨kind, lexeme, line, column⟩ := fault
  obtain ⟨rfl, rfl, rfl, -⟩ := h
  exact congrArg (Fault.mk _ _ _) hplaced

/-- The readings are the same, or refusals for the same fault. -/
inductive Reading.Matches : Reading → Reading → Prop
  | same (reading : Reading) : Matches reading reading
  | refused {fault other : Fault} (h : fault.Matches other) :
      Matches (.refused fault) (.refused other)

/-- Behind a line feed a location settles on the next line. -/
theorem Location.settle_advanceAll_lineFeed (hcs : '\n' ∉ cs) (l : Location) :
    (l.advanceAll (cs ++ ['\n'])).settle = ⟨l.settle.line + 1, 0, false⟩ := by
  have hline := line_advanceAll_concat (l := l) hcs '\n'
  have hfeed : (l.advanceAll (cs ++ ['\n'])).afterLineFeed = true := by
    rw [advanceAll_concat, advance_eq_settle]
    rfl
  rw [← hline]
  simp [settle, hfeed]

namespace Cursor

/-- The other cursor stands before the same text with its line ends joined, and as far as it matters
for what comes next at the same place. -/
structure Joins (cursor other : Cursor) : Prop where
  rest : other.rest = joinLineEnds cursor.rest
  location : cursor.location.settle = other.location.settle

theorem skipGap_joins {l m : Location} (h : l.settle = m.settle) (inComment : Bool)
    (cs : List Char) :
    (skipGap inComment l cs).Joins (skipGap inComment m (joinLineEnds cs)) := by
  induction cs using joinLineEnds.induct generalizing inComment l m with
  | case1 => exact ⟨rfl, h⟩
  | case2 cs ih =>
      -- the scans are one character apart here, and together again behind the line feed
      have hreturn : '\n' ∉ ['\r'] := by decide
      have hsettle : ((l.advance '\r').advance '\n').settle = (m.advance '\n').settle := by
        have hl := Location.settle_advanceAll_lineFeed hreturn l
        have hm := Location.settle_advanceAll_lineFeed List.not_mem_nil m
        rw [← h] at hm
        exact hl.trans hm.symm
      have hskip := ih hsettle false
      cases inComment <;> simpa [joinLineEnds, skipGap, isBlank] using hskip
  | case3 c cs hne ih =>
      have hhead : c ≠ '\r' ∨ cs.head? ≠ some '\n' := by
        by_contra! hends
        obtain ⟨rest, rfl⟩ := List.head?_eq_some_iff.1 hends.2
        exact hne rest hends.1 rfl
      have hadvance : l.advance c = m.advance c := Location.advance_congr h c
      rw [joinLineEnds_cons hhead]
      unfold skipGap
      rw [head?_joinLineEnds_slash, ← hadvance]
      split
      · exact ih rfl _
      · split
        · exact ih rfl _
        · split
          · exact ih rfl _
          · exact ⟨(joinLineEnds_cons hhead).symm, h⟩

theorem Joins.skipBlanks {cursor other : Cursor} (h : cursor.Joins other) :
    cursor.skipBlanks.Joins other.skipBlanks := by
  unfold Cursor.skipBlanks
  rw [h.rest]
  exact skipGap_joins h.location false cursor.rest

/-- Both cursors read the same piece if what follows it is the same with line ends joined. -/
theorem readPiece_joins {l m : Location} (h : l.settle = m.settle) {cs' : List Char} {piece : Piece}
    (hpiece : munch c cs = (piece, rest)) (hpiece' : munch c cs' = (piece, joinLineEnds rest)) :
    (Cursor.mk l (c :: cs)).readPiece.1.Matches (Cursor.mk m (c :: cs')).readPiece.1 ∧
      (Cursor.mk l (c :: cs)).readPiece.2.Joins (Cursor.mk m (c :: cs')).readPiece.2 := by
  have hne : piece.chars ≠ [] := by
    have hchars := munch_chars_ne_nil c cs
    rwa [hpiece] at hchars
  simp only [readPiece, hpiece, hpiece', Location.advanceAll_congr h hne]
  exact ⟨.same _, rfl, rfl⟩

/-- A string that a line feed leaves open is left open at the same line. -/
theorem readPiece_joins_of_unclosed {l m : Location} (h : l.settle = m.settle)
    (hc : isQuote c = true) (hbody : ∀ d ∈ body, staysQuoted d = true) {body' : List Char}
    (hbody' : ∀ d ∈ body', staysQuoted d = true) (rest : List Char) :
    let cursor : Cursor := ⟨l, c :: (body ++ '\n' :: rest)⟩
    let other : Cursor := ⟨m, c :: (body' ++ '\n' :: joinLineEnds rest)⟩
    cursor.readPiece.1.Matches other.readPiece.1 ∧ cursor.readPiece.2.Joins other.readPiece.2 := by
  have hfeed {chars : List Char} (hchars : ∀ d ∈ chars, staysQuoted d = true) :
      '\n' ∉ c :: chars := by
    have hne : '\n' ≠ c := by
      rintro rfl
      exact absurd hc (by decide)
    exact List.not_mem_cons_of_ne_of_not_mem hne (notMem_of_staysQuoted hchars)
  have hmunch {chars tail : List Char} (hchars : ∀ d ∈ chars, staysQuoted d = true) :
      munch c (chars ++ '\n' :: tail) = (.unclosed (c :: chars ++ ['\n']), tail) :=
    Munches.brokenString hc hchars
  simp only [readPiece, hmunch hbody, hmunch hbody', Piece.reading, Piece.chars]
  refine ⟨.refused ⟨rfl, rfl, ?_, fun hkind => absurd rfl hkind⟩, rfl, ?_⟩
  · simp only [Fault.placed, Location.line_advanceAll_concat (hfeed hbody),
      Location.line_advanceAll_concat (hfeed hbody'), h]
  · simp only [Location.settle_advanceAll_lineFeed (hfeed hbody),
      Location.settle_advanceAll_lineFeed (hfeed hbody'), h]

/-- The piece in front is the same, but for the end of a string that is not closed. -/
theorem Joins.readPiece {cursor other : Cursor} (h : cursor.Joins other)
    (hfront : cursor.rest.head? ≠ some '\r') :
    cursor.readPiece.1.Matches other.readPiece.1 ∧
      cursor.readPiece.2.Joins other.readPiece.2 := by
  obtain ⟨l, cs⟩ := cursor
  obtain ⟨m, ds⟩ := other
  obtain ⟨hrest, hlocation⟩ := h
  simp only at hrest hlocation hfront
  subst hrest
  cases cs with
  | nil =>
      simp only [Cursor.readPiece, joinLineEnds, hlocation]
      exact ⟨.same _, rfl, rfl⟩
  | cons c cs =>
      have hc : c ≠ '\r' := by simpa using hfront
      rcases hmunch : munch c cs with ⟨piece, rest⟩
      cases piece with
      | lexeme category taken =>
          obtain ⟨chars, rfl, rfl, hmunch'⟩ := munch_before hmunch (beginsAlike_joinLineEnds rest)
          have hstays : StaysOnLine (c :: chars) := by
            have hlexeme := Terminal.staysOnLine (isSpelled_of_munch hmunch)
            rwa [String.toList_ofList] at hlexeme
          rw [← List.cons_append, joinLineEnds_append hstays]
          exact readPiece_joins hlocation hmunch hmunch'
      | stray d =>
          have hstray := munch_stray hmunch
          obtain ⟨rfl, rfl⟩ : d = c ∧ rest = cs := by simpa [hmunch] using hstray cs
          rw [joinLineEnds_cons (.inl hc)]
          exact readPiece_joins hlocation hmunch (hstray _)
      | unclosed chars =>
          rcases munch_unclosed_cases hmunch with ⟨rfl, rfl, hfeed⟩ |
            ⟨hquote, body, rfl, rfl, hbody⟩
          · -- no line feed is left, so both texts are the same
            rw [joinLineEnds_cons (.inl hc), joinLineEnds_of_notMem hfeed]
            exact readPiece_joins hlocation hmunch hmunch
          · -- the string may end with the carriage return that is left out
            obtain ⟨body', hpart, hjoined⟩ := joinLineEnds_line (notMem_of_staysQuoted hbody) rest
            rw [joinLineEnds_cons (.inl hc), hjoined]
            exact readPiece_joins_of_unclosed hlocation hquote hbody
              (fun d hd => hbody d (hpart.subset hd)) rest

/-- **Line ends do not matter to a reading.**  Side by side two cursors read the same, up to the
column of a string that is not closed, and they stay side by side. -/
theorem Joins.next {cursor other : Cursor} (h : cursor.Joins other) :
    cursor.next.1.Matches other.next.1 ∧ cursor.next.2.Joins other.next.2 := by
  refine h.skipBlanks.readPiece fun hreturn => ?_
  obtain ⟨cs, hrest⟩ := List.head?_eq_some_iff.1 hreturn
  obtain ⟨gap, hskips⟩ := exists_skips cursor.location cursor.rest
  exact absurd (hskips.stops _ _ hrest).1 (by decide)

theorem Joins.scan {cursor other : Cursor} (h : cursor.Joins other) :
    cursor.scan.1 = other.scan.1 ∧ Option.Rel Fault.Matches cursor.scan.2 other.scan.2 := by
  induction cursor using scan.induct generalizing other with
  | case1 cursor marker after hnext =>
      obtain ⟨hmatches, -⟩ := h.next
      rcases hother : other.next with ⟨reading, after'⟩
      rw [hnext, hother] at hmatches
      cases hmatches
      rw [scan_of_finished hnext, scan_of_finished hother]
      exact ⟨rfl, .none⟩
  | case2 cursor fault after hnext =>
      obtain ⟨hmatches, -⟩ := h.next
      rcases hother : other.next with ⟨reading, after'⟩
      rw [hnext, hother] at hmatches
      cases hmatches with
      | same =>
          rw [scan_of_refused hnext, scan_of_refused hother]
          exact ⟨rfl, .some ⟨rfl, rfl, rfl, fun _ => rfl⟩⟩
      | refused hfault =>
          rw [scan_of_refused hnext, scan_of_refused hother]
          exact ⟨rfl, .some hfault⟩
  | case3 cursor t after hnext ts fault hscan ih =>
      obtain ⟨hmatches, hjoins⟩ := h.next
      rcases hother : other.next with ⟨reading, after'⟩
      rw [hnext, hother] at hmatches hjoins
      cases hmatches
      obtain ⟨htokens, hfault⟩ := ih hjoins
      rw [scan_of_token hnext, scan_of_token hother]
      exact ⟨congrArg (t :: ·) htokens, hfault⟩

end Cursor

/-! ### Whole texts -/

/-- With its line ends joined a text is scanned to the same tokens, or to the same fault. -/
theorem scanText_normalizeLineEnds (text : String) :
    (∃ ts, scanText text = .ok ts ∧ scanText (normalizeLineEnds text) = .ok ts) ∨
    ∃ fault other, scanText text = .error fault ∧
      scanText (normalizeLineEnds text) = .error other ∧ fault.Matches other := by
  have hjoins : (Cursor.ofString text).Joins (Cursor.ofString (normalizeLineEnds text)) :=
    ⟨String.toList_ofList, rfl⟩
  obtain ⟨htokens, hfault⟩ := hjoins.scan
  unfold scanText
  rcases hscan : (Cursor.ofString text).scan with ⟨ts, found⟩
  rcases hother : (Cursor.ofString (normalizeLineEnds text)).scan with ⟨us, found'⟩
  rw [hscan, hother] at htokens hfault
  obtain rfl : ts = us := htokens
  cases hfault with
  | none => exact .inl ⟨ts, rfl, rfl⟩
  | some hmatches => exact .inr ⟨_, _, rfl, rfl, hmatches⟩

/-- **Line ends do not matter.**  Whether a text ends its lines with a carriage return and a line
feed or with a line feed alone, it is accepted with the same tokens at the same places; a character
that begins no lexeme is refused at the same place, and a string that is not closed on the same
line. -/
theorem tokenize_normalizeLineEnds (text : String) :
    (∀ r, tokenize (normalizeLineEnds text) = .ok r ↔ tokenize text = .ok r) ∧
    (∀ fault, fault.kind = .unknownCharacter →
      (tokenize (normalizeLineEnds text) = .error fault ↔ tokenize text = .error fault)) ∧
    ∀ line, (∃ fault, tokenize (normalizeLineEnds text) = .error fault ∧
        fault.kind = .stringNotClosed ∧ fault.line = line) ↔
      ∃ fault, tokenize text = .error fault ∧
        fault.kind = .stringNotClosed ∧ fault.line = line := by
  simp only [tokenize_eq_ok_iff, tokenize_eq_error_iff]
  rcases scanText_normalizeLineEnds text with ⟨ts, htext, hjoined⟩ |
    ⟨fault, other, htext, hjoined, hmatches⟩
  · simp [htext, hjoined]
  · refine ⟨by simp [htext, hjoined], fun found hfound => ?_, fun line => ?_⟩
    · simp only [htext, hjoined, Except.error.injEq]
      constructor
      · rintro rfl
        exact hmatches.eq (by simp [hmatches.kind, hfound])
      · rintro rfl
        exact (hmatches.eq (by simp [hfound])).symm
    · simp [htext, hjoined, hmatches.kind, hmatches.line]

/-- Behind a comment, in front of a stray character, and in a string that is not closed.  There the
carriage return counts as a column. -/
theorem tokenize_normalizeLineEnds_pieces :
    normalizeLineEnds "x // <\r\n=\r\n" = "x // <\n=\n" ∧
    (∃ r, tokenize "x // <\r\n=\r\n" = .ok r ∧ tokenize "x // <\n=\n" = .ok r) ∧
    normalizeLineEnds "x\r\n #" = "x\n #" ∧
    tokenize "x\n #" = .error ((Fault.placed .unknownCharacter 2 2).quoting "#") ∧
    normalizeLineEnds "'x\r\n" = "'x\n" ∧
    tokenize "'x\r\n" = .error (Fault.placed .stringNotClosed 1 4) ∧
    ∃ fault, tokenize "'x\n" = .error fault ∧ fault.kind = .stringNotClosed ∧
      fault.line = some 1 := by
  have haccepted : scanText "x // <\r\n=\r\n" =
      .ok [⟨.identifier, "x", 1, 1⟩, ⟨.relationalOperator, "=", 2, 1⟩] := by decide +kernel
  have hstray : scanText "x\r\n #" =
      .error ((Fault.placed .unknownCharacter 2 2).quoting "#") := by decide +kernel
  have hunclosed : scanText "'x\r\n" = .error (Fault.placed .stringNotClosed 1 4) := by decide +kernel
  have hr := tokenize_eq_ok_iff.2 ⟨_, haccepted, rfl⟩
  have hjoined : normalizeLineEnds "x // <\r\n=\r\n" = "x // <\n=\n" := by decide +kernel
  have hjoinedStray : normalizeLineEnds "x\r\n #" = "x\n #" := by decide +kernel
  have hjoinedUnclosed : normalizeLineEnds "'x\r\n" = "'x\n" := by decide +kernel
  refine ⟨hjoined, ⟨_, hr, hjoined ▸ ((tokenize_normalizeLineEnds _).1 _).2 hr⟩, hjoinedStray, ?_,
    hjoinedUnclosed, tokenize_eq_error_iff.2 hunclosed, ?_⟩
  · exact hjoinedStray ▸
      ((tokenize_normalizeLineEnds _).2.1 _ rfl).2 (tokenize_eq_error_iff.2 hstray)
  · exact hjoinedUnclosed ▸ ((tokenize_normalizeLineEnds _).2.2 (some 1)).2
      ⟨_, tokenize_eq_error_iff.2 hunclosed, rfl, rfl⟩

end MiniPascal
