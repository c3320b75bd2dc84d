import Mathlib.Data.List.DropRight
import MiniPascal.Proofs.ScanRun

/-!
# Places of characters

A character of a text has a line, one more than the line feeds in front of it, and a
column, one more than the characters of its line in front of it.  A location differs
from that only while a line feed was consumed last, and settling removes the
difference; so the place of a character is a matter of the text in front of it, however
often and with whatever answers the scanner was called before.
-/

namespace MiniPascal

/-- What stands on the last line of a text. -/
def lastLine (cs : List Char) : List Char :=
  cs.rtakeWhile (· != '\n')

/-- The line and the column of the character that stands behind `before`. -/
def placeBehind (before : List Char) : Nat × Nat :=
  (1 + before.count '\n', 1 + (lastLine before).length)

example : placeBehind "ab\nc".toList = (2, 2) := by decide

theorem lastLine_concat_lineFeed (cs : List Char) : lastLine (cs ++ ['\n']) = [] := by
  simp [lastLine]

theorem lastLine_concat {c : Char} (hc : c ≠ '\n') (cs : List Char) :
    lastLine (cs ++ [c]) = lastLine cs ++ [c] := by
  simp [lastLine, hc]

/-- Characters without a line feed go on with the line that they follow. -/
theorem lastLine_append (cs : List Char) {ds : List Char} (hds : '\n' ∉ ds) :
    lastLine (cs ++ ds) = lastLine cs ++ ds := by
  induction ds using List.reverseRecOn with
  | nil => simp
  | append_singleton ds d ih =>
      obtain ⟨hinit, hd⟩ : '\n' ∉ ds ∧ d ≠ '\n' := by simpa [eq_comm] using hds
      rw [← List.append_assoc, lastLine_concat hd, ih hinit, List.append_assoc]

namespace Location

/-- The next character is counted from where the location settles. -/
theorem advance_eq_settle (l : Location) (c : Char) :
    l.advance c = ⟨l.settle.line, l.settle.column + 1, c == '\n'⟩ := by
  by_cases h : l.afterLineFeed <;> simp [advance, settle, h]

theorem advance_congr {l m : Location} (h : l.settle = m.settle) (c : Char) :
    l.advance c = m.advance c := by
  rw [advance_eq_settle, advance_eq_settle, h]

theorem settle_advanceAll_congr {l m : Location} (h : l.settle = m.settle) (cs : List Char) :
    (l.advanceAll cs).settle = (m.advanceAll cs).settle := by
  cases cs with
  | nil => exact h
  | cons c cs => rw [advanceAll_cons, advanceAll_cons, advance_congr h]

theorem advanceAll_concat (l : Location) (cs : List Char) (c : Char) :
    l.advanceAll (cs ++ [c]) = (l.advanceAll cs).advance c := by
  rw [advanceAll_append, advanceAll_cons, advanceAll_nil]

/-- Behind a text the location settles on its last line, behind the characters there. -/
theorem settle_advanceAll_start (cs : List Char) :
    (start.advanceAll cs).settle = ⟨1 + cs.count '\n', (lastLine cs).length, false⟩ := by
  induction cs using List.reverseRecOn with
  | nil => rfl
  | append_singleton cs c ih =>
      rw [advanceAll_concat, advance_eq_settle, ih]
      by_cases hc : c = '\n'
      · subst hc
        rw [lastLine_concat_lineFeed]
        simp [settle, List.count_append]
        omega
      · rw [lastLine_concat hc]
        simp [settle, hc, List.count_append]

/-- A character is consumed at its own place, a line feed too. -/
theorem advanceAll_start_concat (cs : List Char) (c : Char) :
    ((start.advanceAll (cs ++ [c])).line, (start.advanceAll (cs ++ [c])).column) =
      placeBehind cs := by
  rw [advanceAll_concat, advance_eq_settle, settle_advanceAll_start]
  simp only [placeBehind, Nat.add_comm 1 (lastLine cs).length]

end Location

/-- The line and the column that a reading reports. -/
def Reading.place : Reading → Option (Nat × Nat)
  | token t => some (t.line, t.column)
  | refused fault => do return (← fault.line, ← fault.column)
  | finished marker => some (marker.line, marker.column)

theorem Piece.place_reading (piece : Piece) (l : Location) :
    (piece.reading l).place = some (l.line, l.column) := by
  cases piece <;> rfl

namespace Cursor

/-- A reading reports where the cursor is then: behind what was used of the text, and at the end of
the text where that settles. -/
theorem next_location (cursor : Cursor) :
    ∃ used, cursor.rest = used ++ cursor.next.2.rest ∧
      cursor.next.1.place = some (cursor.next.2.location.line, cursor.next.2.location.column) ∧
      match cursor.next.1 with
      | .finished _ =>
          cursor.next.2.rest = [] ∧
            cursor.next.2.location = (cursor.location.advanceAll used).settle
      | _ => cursor.next.2.location = cursor.location.advanceAll used := by
  obtain ⟨gap, hskips⟩ := exists_skips cursor.location cursor.rest
  have hlocation : cursor.skipBlanks.location = cursor.location.advanceAll gap := hskips.location
  have hsplit : cursor.rest = gap ++ cursor.skipBlanks.rest := hskips.split
  cases hrest : cursor.skipBlanks.rest with
  | nil =>
      rw [next_of_rest_nil hrest, hlocation]
      exact ⟨gap, by rw [hsplit, hrest], rfl, rfl, rfl⟩
  | cons c cs =>
      rw [next_of_rest_cons hrest, hlocation, ← Location.advanceAll_append]
      refine ⟨gap ++ (munch c cs).1.chars, ?_, Piece.place_reading _ _, ?_⟩
      · rw [hsplit, hrest, List.append_assoc, munch_append]
      · cases (munch c cs).1 <;> rfl

/-- The cursor stands behind `consumed` in the text, as far as it matters for what comes next. -/
structure StandsBehind (cursor : Cursor) (consumed text : List Char) : Prop where
  split : text = consumed ++ cursor.rest
  location : cursor.location.settle = (Location.start.advanceAll consumed).settle

theorem standsBehind_ofString (text : String) : (ofString text).StandsBehind [] text.toList :=
  ⟨rfl, rfl⟩

/-- What is consumed from there on is placed as in the whole text. -/
theorem StandsBehind.advanceAll_concat {cursor : Cursor} {consumed text : List Char}
    (h : cursor.StandsBehind consumed text) (cs : List Char) (c : Char) :
    cursor.location.advanceAll (cs ++ [c]) =
      Location.start.advanceAll (consumed ++ cs ++ [c]) := by
  have hsettle := Location.settle_advanceAll_congr h.location cs
  rw [Location.advanceAll_concat, Location.advanceAll_concat, Location.advanceAll_append,
    Location.advance_congr hsettle]

/-- Whatever is answered, the cursor stands behind what was used of the text too. -/
theorem StandsBehind.next {cursor : Cursor} {consumed text : List Char}
    (h : cursor.StandsBehind consumed text) :
    ∃ consumed', cursor.next.2.StandsBehind consumed' text := by
  obtain ⟨used, hused, -, hlocation⟩ := cursor.next_location
  have hsettle : cursor.next.2.location.settle = (cursor.location.advanceAll used).settle := by
    split at hlocation
    · rw [hlocation.2, Location.settle_settle]
    · rw [hlocation]
  refine ⟨consumed ++ used, ?_, ?_⟩
  · rw [h.split, hused, List.append_assoc]
  · rw [hsettle, Location.advanceAll_append, Location.settle_advanceAll_congr h.location]

/-- The end of the text is answered at the place where the text ends. -/
theorem StandsBehind.eq_of_finished {cursor after : Cursor} {consumed text : List Char}
    {line column : Nat} (h : cursor.StandsBehind consumed text)
    (hnext : cursor.next = (.finished (Token.endOfFile line column), after)) :
    line = 1 + text.count '\n' ∧ column = (lastLine text).length := by
  obtain ⟨used, hused, hplace, hlocation⟩ := cursor.next_location
  rw [hnext] at hused hplace hlocation
  obtain ⟨hrest, hlocation⟩ := hlocation
  rw [hrest, List.append_nil] at hused
  have hend : after.location = (Location.start.advanceAll text).settle := by
    rw [hlocation, h.split, Location.advanceAll_append, hused,
      Location.settle_advanceAll_congr h.location]
  rw [Location.settle_advanceAll_start] at hend
  simpa [Reading.place, Token.endOfFile, hend] using hplace

/-- An answer about some characters reports the place of the last one. -/
theorem StandsBehind.place_of_covers {cursor after : Cursor} {consumed text gap chars : List Char}
    {c : Char} {reading : Reading} (h : cursor.StandsBehind consumed text)
    (hnext : cursor.next = (reading, after)) (hcovers : reading.Covers (chars ++ [c]) after.rest)
    (hsplit : cursor.rest = gap ++ (chars ++ [c]) ++ after.rest) :
    reading.place = some (placeBehind (consumed ++ gap ++ chars)) := by
  obtain ⟨used, hused, hplace, hlocation⟩ := cursor.next_location
  rw [hnext] at hused hplace hlocation
  obtain rfl : used = gap ++ chars ++ [c] := by
    rw [List.append_assoc]
    exact List.append_cancel_right (hused.symm.trans hsplit)
  have hafter : after.location =
      Location.start.advanceAll (consumed ++ (gap ++ chars) ++ [c]) := by
    rw [← h.advanceAll_concat]
    cases reading with
    | token t => exact hlocation
    | refused fault => exact hlocation
    | finished marker => exact nomatch hcovers
  rw [hplace, hafter, Location.advanceAll_start_concat, List.append_assoc]

end Cursor

namespace Scanner

theorem calls_standsBehind {consumed text : List Char} (n : Nat) {s : Scanner}
    (h : s.cursor.StandsBehind consumed text) :
    ∃ consumed', (calls n s).2.cursor.StandsBehind consumed' text := by
  induction n generalizing s consumed with
  | zero => exact ⟨consumed, h⟩
  | succ n ih =>
      obtain ⟨consumed', h'⟩ := h.next
      exact ih (s := s.call.2) h'

/-- **Exact places.**  After any number of calls, whatever they answered, some of the text is
consumed.  If only a last gap is left, the next call answers the end of the text, on its last line
and behind the characters there.  Else a gap is skipped, and the answer is about the characters that
follow it: a whole lexeme, a character that begins none, or a string that is not closed, through the
line feed or the end of the text.  Then it reports the place of the last one of these characters. -/
theorem call_reports_place (text : String) (registry : Registry) (n : Nat) :
    let s := (calls n (start text registry)).2
    ∃ consumed, text.toList = consumed ++ s.cursor.rest ∧
      ((IsLastGap s.cursor.rest ∧
          s.call.1 = .finished (Token.endOfFile (1 + text.toList.count '\n')
            (lastLine text.toList).length)) ∨
        ∃ gap chars c, IsGap gap ∧
          s.cursor.rest = gap ++ (chars ++ [c]) ++ s.call.2.cursor.rest ∧
          s.call.1.Covers (chars ++ [c]) s.call.2.cursor.rest ∧
          s.call.1.place = some (placeBehind (consumed ++ gap ++ chars))) := by
  intro s
  obtain ⟨consumed, hbehind⟩ :=
    calls_standsBehind n (s := start text registry) (Cursor.standsBehind_ofString text)
  refine ⟨consumed, hbehind.split, ?_⟩
  rcases s.cursor.next_cases with ⟨hlast, line, column, after, hnext, -⟩ |
    ⟨gap, piece, reading, after, hnext, hgap, hne, hcovers, hsplit⟩
  · obtain ⟨rfl, rfl⟩ := hbehind.eq_of_finished hnext
    exact .inl ⟨hlast, congrArg Prod.fst hnext⟩
  · obtain ⟨chars, c, rfl⟩ : ∃ chars c, piece = chars ++ [c] :=
      ⟨_, _, (List.dropLast_append_getLast hne).symm⟩
    have hreading : s.call.1 = reading := congrArg Prod.fst hnext
    have hafter : s.call.2.cursor = after := congrArg Prod.snd hnext
    rw [hreading, hafter]
    exact .inr ⟨gap, chars, c, hgap, hsplit, hcovers, hbehind.place_of_covers hnext hcovers hsplit⟩

end Scanner

end MiniPascal
