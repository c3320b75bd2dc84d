import Mathlib.Data.List.Basic
import MiniPascal.Proofs.ReadingContexts
import MiniPascal.Proofs.RegistryHistories

/-!
# Texts joined by a line feed

A line feed ends whatever a text ends in: a gap, a comment, or a lexeme that is carried on
by no blank.  So a text that is accepted is scanned to the same tokens in front of a line
feed, and what follows that is scanned as if it stood alone, some lines further down.
-/

namespace MiniPascal

/-! ### Further down -/

/-- The location some lines further down. -/
def Location.below (lines : Nat) (l : Location) : Location :=
  ⟨l.line + lines, l.column, l.afterLineFeed⟩

/-- The token some lines further down. -/
def Token.below (lines : Nat) (t : Token) : Token :=
  ⟨t.category, t.lexeme, t.line + lines, t.column⟩

/-- The fault some lines further down. -/
def Fault.below (lines : Nat) (fault : Fault) : Fault :=
  ⟨fault.kind, fault.lexeme, fault.line.map (· + lines), fault.column⟩

/-- The reading some lines further down. -/
def Reading.below (lines : Nat) : Reading → Reading
  | token t => token (t.below lines)
  | refused fault => refused (fault.below lines)
  | finished marker => finished (marker.below lines)

/-- The cursor some lines further down in front of the same text. -/
def Cursor.below (lines : Nat) (cursor : Cursor) : Cursor :=
  ⟨cursor.location.below lines, cursor.rest⟩

namespace Location

theorem settle_below (lines : Nat) (l : Location) :
    (l.below lines).settle = l.settle.below lines := by
  by_cases h : l.afterLineFeed <;> simp [settle, below, h, Nat.add_right_comm]

theorem advance_below (lines : Nat) (l : Location) (c : Char) :
    (l.below lines).advance c = (l.advance c).below lines := by
  rw [advance_eq_settle, advance_eq_settle, settle_below]
  rfl

theorem advanceAll_below (lines : Nat) (l : Location) (cs : List Char) :
    (l.below lines).advanceAll cs = (l.advanceAll cs).below lines := by
  induction cs generalizing l with
  | nil => rfl
  | cons c cs ih => rw [advanceAll_cons, advanceAll_cons, advance_below, ih]

end Location

theorem Piece.reading_below (lines : Nat) (l : Location) (piece : Piece) :
    piece.reading (l.below lines) = (piece.reading l).below lines := by
  cases piece <;> rfl

namespace Cursor

theorem skipGap_below (lines : Nat) (inComment : Bool) (l : Location) (cs : List Char) :
    skipGap inComment (l.below lines) cs = (skipGap inComment l cs).below lines := by
  induction cs generalizing inComment l with
  | nil => rfl
  | cons c cs ih =>
      unfold skipGap
      rw [Location.advance_below]
      split
      · exact ih _ _
      · split
        · exact ih _ _
        · split
          · exact ih _ _
          · rfl

theorem readPiece_below (lines : Nat) (cursor : Cursor) :
    (cursor.below lines).readPiece =
      (cursor.readPiece.1.below lines, cursor.readPiece.2.below lines) := by
  obtain ⟨l, cs⟩ := cursor
  cases cs with
  | nil =>
      simp only [below, readPiece, Location.settle_below]
      rfl
  | cons c cs =>
      simp only [below, readPiece, Location.advanceAll_below, Piece.reading_below]

theorem next_below (lines : Nat) (cursor : Cursor) :
    (cursor.below lines).next = (cursor.next.1.below lines, cursor.next.2.below lines) := by
  have hskip : (cursor.below lines).skipBlanks = cursor.skipBlanks.below lines :=
    skipGap_below lines false cursor.location cursor.rest
  rw [next, hskip, readPiece_below]
  rfl

/-- Further down a text is scanned to the same tokens, or to the same fault, further down. -/
theorem scan_below (lines : Nat) (cursor : Cursor) :
    (cursor.below lines).scan =
      (cursor.scan.1.map (Token.below lines), cursor.scan.2.map (Fault.below lines)) := by
  induction cursor using scan.induct with
  | case1 cursor marker after hnext =>
      have hbelow := next_below lines cursor
      rw [hnext] at hbelow
      rw [scan_of_finished hnext, scan_of_finished hbelow]
      rfl
  | case2 cursor fault after hnext =>
      have hbelow := next_below lines cursor
      rw [hnext] at hbelow
      rw [scan_of_refused hnext, scan_of_refused hbelow]
      rfl
  | case3 cursor t after hnext ts fault hscan ih =>
      have hbelow := next_below lines cursor
      rw [hnext] at hbelow
      rw [scan_of_token hnext, scan_of_token hbelow, ih]
      rfl

/-! ### Followed by more text -/

/-- The cursor when more text follows its own. -/
def followedBy (cursor : Cursor) (cs : List Char) : Cursor :=
  ⟨cursor.location, cursor.rest ++ cs⟩

theorem head?_append_lineFeed (cs behind : List Char) :
    ((cs ++ '\n' :: behind).head? == some '/') = (cs.head? == some '/') := by
  cases cs <;> rfl

/-- A line feed ends a gap that goes to the end of the text, also a comment that is open there; any
other gap ends as before. -/
theorem skipGap_append_lineFeed (inComment : Bool) (l : Location) (cs behind : List Char) :
    skipGap inComment l (cs ++ '\n' :: behind) =
      if (skipGap inComment l cs).rest = [] then
        skipGap false (l.advanceAll (cs ++ ['\n'])) behind
      else
        (skipGap inComment l cs).followedBy ('\n' :: behind) := by
  induction cs generalizing inComment l with
  | nil => cases inComment <;> simp [skipGap, isBlank]
  | cons c cs ih =>
      rw [List.cons_append, List.cons_append, Location.advanceAll_cons, skipGap, skipGap,
        head?_append_lineFeed]
      split
      · exact ih _ _
      · split
        · exact ih _ _
        · split
          · exact ih _ _
          · exact (if_neg (List.cons_ne_nil c cs)).symm

theorem skipBlanks_followedBy (cursor : Cursor) (behind : List Char) :
    (cursor.followedBy ('\n' :: behind)).skipBlanks =
      if cursor.skipBlanks.rest = [] then
        skipGap false (cursor.location.advanceAll (cursor.rest ++ ['\n'])) behind
      else
        cursor.skipBlanks.followedBy ('\n' :: behind) :=
  skipGap_append_lineFeed false cursor.location cursor.rest behind

/-- At the end of the text a reading goes on behind the line feed. -/
theorem next_followedBy_of_finished {cursor after : Cursor} {marker : Token}
    (h : cursor.next = (.finished marker, after)) (behind : List Char) :
    (cursor.followedBy ('\n' :: behind)).next =
      (Cursor.mk (cursor.location.advanceAll (cursor.rest ++ ['\n'])) behind).next := by
  have hrest : cursor.skipBlanks.rest = [] := by
    cases hrest : cursor.skipBlanks.rest with
    | nil => rfl
    | cons c cs =>
        rw [next_of_rest_cons hrest] at h
        cases hpiece : (munch c cs).1 <;> simp [hpiece, Piece.reading] at h
  exact congrArg readPiece ((skipBlanks_followedBy cursor behind).trans (if_pos hrest))

/-- No token is carried on by a line feed. -/
theorem next_followedBy_of_token {cursor after : Cursor} {t : Token}
    (h : cursor.next = (.token t, after)) (behind : List Char) :
    (cursor.followedBy ('\n' :: behind)).next =
      (.token t, after.followedBy ('\n' :: behind)) := by
  obtain ⟨c, cs, chars, hrest, hmunch, hlexeme, hlocation, hline, hcolumn⟩ := next_eq_token h
  have hbegins : BeginsAlike after.rest (after.rest ++ '\n' :: behind) := by
    cases after.rest with
    | nil => exact .inr rfl
    | cons d ds => exact .inl rfl
  obtain ⟨tail, rfl, rfl, hmunch'⟩ := munch_before hmunch hbegins
  have hskip : (cursor.followedBy ('\n' :: behind)).skipBlanks =
      ⟨cursor.skipBlanks.location, c :: (tail ++ (after.rest ++ '\n' :: behind))⟩ := by
    rw [skipBlanks_followedBy, if_neg (by simp [hrest]), followedBy, hrest]
    simp
  rw [next_of_rest_cons (congrArg Cursor.rest hskip), hskip, hmunch']
  simp only [Piece.chars, Piece.reading, ← hlocation, ← hline, ← hcolumn, ← hlexeme]
  rfl

/-- What was read of the text is accounted for in the location. -/
theorem advanceAll_rest_of_token {cursor after : Cursor} {t : Token}
    (h : cursor.next = (.token t, after)) :
    cursor.location.advanceAll cursor.rest = after.location.advanceAll after.rest := by
  obtain ⟨used, hused, -, hlocation⟩ := cursor.next_location
  rw [h] at hused hlocation
  simp only at hused hlocation
  rw [hused, hlocation, Location.advanceAll_append]

/-- If a text is accepted, a line feed and more text behind it add what that text is scanned to. -/
theorem scan_followedBy {cursor : Cursor} {ts : List Token} (h : cursor.scan = (ts, none))
    (behind : List Char) :
    let lines : Cursor := ⟨cursor.location.advanceAll (cursor.rest ++ ['\n']), behind⟩
    (cursor.followedBy ('\n' :: behind)).scan = (ts ++ lines.scan.1, lines.scan.2) := by
  induction cursor using scan.induct generalizing ts with
  | case1 cursor marker after hnext =>
      obtain ⟨rfl, -⟩ := Prod.mk.inj ((scan_of_finished hnext).symm.trans h)
      exact scan_congr (next_followedBy_of_finished hnext behind)
  | case2 cursor fault after hnext => simp [scan_of_refused hnext] at h
  | case3 cursor t after hnext us fault hscan ih =>
      rw [scan_of_token hnext] at h
      obtain ⟨rfl, hnone⟩ := Prod.mk.inj h
      have hafter := ih (Prod.ext rfl hnone)
      -- the text behind is placed by all that is in front, wherever the scan has come to there
      rw [scan_of_token (next_followedBy_of_token hnext behind), hafter,
        Location.advanceAll_append, Location.advanceAll_append, advanceAll_rest_of_token hnext]
      rfl

/-- Behind a line feed a text is scanned as if it stood alone, below the lines in front of it. -/
theorem scan_behind_lineFeed (cs : List Char) (b : String) :
    (Cursor.mk (Location.start.advanceAll (cs ++ ['\n'])) b.toList).scan =
      ((ofString b).below (1 + cs.count '\n')).scan := by
  have hsettle : (Location.start.advanceAll (cs ++ ['\n'])).settle =
      (Location.start.below (1 + cs.count '\n')).settle := by
    rw [Location.settle_advanceAll_start, lastLine_concat_lineFeed, Location.settle_below]
    simp [Location.settle, Location.start, Location.below, List.count_append]
    omega
  exact scan_congr (next_congr hsettle b.toList)

end Cursor

/-! ### Whole texts -/

theorem scanText_joined {a b : String} {ts : List Token} (ha : scanText a = .ok ts) :
    let lines := 1 + a.toList.count '\n'
    scanText (a ++ "\n" ++ b) =
      match scanText b with
      | .ok us => .ok (ts ++ us.map (Token.below lines))
      | .error fault => .error (fault.below lines) := by
  intro lines
  have hsplit : Cursor.ofString (a ++ "\n" ++ b) =
      (Cursor.ofString a).followedBy ('\n' :: b.toList) := by
    simp [Cursor.ofString, Cursor.followedBy]
  have hjoined : (Cursor.ofString (a ++ "\n" ++ b)).scan =
      (ts ++ (Cursor.ofString b).scan.1.map (Token.below lines),
        (Cursor.ofString b).scan.2.map (Fault.below lines)) := by
    have hbelow := Cursor.scan_below lines (Cursor.ofString b)
    rw [← Cursor.scan_behind_lineFeed] at hbelow
    rw [hsplit, Cursor.scan_followedBy (scan_of_scanText ha)]
    simp only [Cursor.ofString, hbelow]
  simp only [scanText, hjoined]
  rcases (Cursor.ofString b).scan with ⟨us, fault⟩
  cases fault <;> rfl

/-- **Texts are scanned line by line.**  Let a text be accepted.  With a line feed and another text
behind it, it is scanned to its tokens and, if the other text is accepted, to those of that one,
below the lines of the first; otherwise the fault of the other text is found, below these lines. -/
theorem tokenize_joined {a : String} {r : Registry} (ha : tokenize a = .ok r) (b : String) :
    let lines := 1 + a.toList.count '\n'
    (∀ q, tokenize b = .ok q → ∃ joined, tokenize (a ++ "\n" ++ b) = .ok joined ∧
      joined.toList = r.toList ++ q.toList.map (Token.below lines)) ∧
    ∀ fault, tokenize b = .error fault →
      tokenize (a ++ "\n" ++ b) = .error (fault.below lines) := by
  obtain ⟨ts, hts, rfl⟩ := tokenize_eq_ok_iff.1 ha
  have hjoined := scanText_joined (b := b) hts
  intro lines
  constructor
  · intro q hq
    obtain ⟨us, hus, rfl⟩ := tokenize_eq_ok_iff.1 hq
    rw [hus] at hjoined
    refine ⟨_, tokenize_eq_ok_iff.2 ⟨_, hjoined, rfl⟩, ?_⟩
    rw [Registry.toList_ofList, Registry.toList_ofList, Registry.toList_ofList]
  · intro fault hfault
    rw [tokenize_eq_error_iff.1 hfault] at hjoined
    exact tokenize_eq_error_iff.2 hjoined

/-- The line feed keeps the two parts of an operator apart, and a string that is not closed is found
below it. -/
theorem tokenize_joined_operators :
    (∃ r joined : Registry, tokenize "x <" = .ok r ∧
      tokenize ("x <" ++ "\n" ++ "= 2") = .ok joined ∧
      joined.toList =
        [⟨.identifier, "x", 1, 1⟩, ⟨.relationalOperator, "<", 1, 3⟩,
          ⟨.relationalOperator, "=", 2, 1⟩, ⟨.integerNumber, "2", 2, 3⟩]) ∧
    tokenize ("x <" ++ "\n" ++ " 'y") = .error (Fault.placed .stringNotClosed 2 3) := by
  have ha : scanText "x <" = .ok [⟨.identifier, "x", 1, 1⟩, ⟨.relationalOperator, "<", 1, 3⟩] := by
    decide +kernel
  have hb : scanText "= 2" =
      .ok [⟨.relationalOperator, "=", 1, 1⟩, ⟨.integerNumber, "2", 1, 3⟩] := by decide +kernel
  have hunclosed : scanText " 'y" = .error (Fault.placed .stringNotClosed 1 3) := by decide +kernel
  have hr := tokenize_eq_ok_iff.2 ⟨_, ha, rfl⟩
  constructor
  · obtain ⟨joined, hjoined, htokens⟩ :=
      (tokenize_joined hr "= 2").1 _ (tokenize_eq_ok_iff.2 ⟨_, hb, rfl⟩)
    refine ⟨_, joined, hr, hjoined, ?_⟩
    rw [htokens, Registry.toList_ofList, Registry.toList_ofList]
    decide
  · exact (tokenize_joined hr " 'y").2 _ (tokenize_eq_error_iff.2 hunclosed)

end MiniPascal
