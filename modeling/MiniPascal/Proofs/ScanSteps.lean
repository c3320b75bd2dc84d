import MiniPascal.Token.Scan

/-!
# Steps of a scan

What one attempt to read a token answers is decided by the characters behind the
gap in front, and a scan goes on by that answer.
-/

namespace MiniPascal.Cursor

/-- Behind the last gap there is nothing but the end of the text. -/
theorem next_of_rest_nil {cursor : Cursor} (h : cursor.skipBlanks.rest = []) :
    cursor.next =
      (.finished (Token.endOfFile cursor.skipBlanks.location.settle.line
        cursor.skipBlanks.location.settle.column), ⟨cursor.skipBlanks.location.settle, []⟩) := by
  unfold next
  rcases hskip : cursor.skipBlanks with ⟨l, cs⟩
  rw [hskip] at h
  simp only at h
  subst h
  rfl

/-- Behind every other gap there is a piece. -/
theorem next_of_rest_cons {cursor : Cursor} {c : Char} {cs : List Char}
    (h : cursor.skipBlanks.rest = c :: cs) :
    cursor.next =
      ((munch c cs).1.reading (cursor.skipBlanks.location.advanceAll (munch c cs).1.chars),
        ⟨cursor.skipBlanks.location.advanceAll (munch c cs).1.chars, (munch c cs).2⟩) := by
  unfold next
  rcases hskip : cursor.skipBlanks with ⟨l, ds⟩
  rw [hskip] at h
  simp only at h
  subst h
  rfl

/-- A token that is read is the lexeme behind the gap. -/
theorem next_eq_token {cursor after : Cursor} {t : Token} (h : cursor.next = (.token t, after)) :
    ∃ c cs chars, cursor.skipBlanks.rest = c :: cs ∧
      munch c cs = (.lexeme t.category chars, after.rest) ∧ t.lexeme = String.ofList chars ∧
      after.location = cursor.skipBlanks.location.advanceAll chars ∧
      t.line = after.location.line ∧ t.column = after.location.column := by
  cases hrest : cursor.skipBlanks.rest with
  | nil => simp [next_of_rest_nil hrest] at h
  | cons c cs =>
      rw [next_of_rest_cons hrest] at h
      obtain ⟨hreading, rfl⟩ := Prod.mk.inj h
      cases hpiece : (munch c cs).1 with
      | lexeme category chars =>
          rw [hpiece] at hreading
          obtain rfl := Reading.token.inj hreading
          refine ⟨c, cs, chars, rfl, ?_, rfl, rfl, rfl, rfl⟩
          rw [← hpiece]
      | stray d => simp [hpiece, Piece.reading] at hreading
      | unclosed chars => simp [hpiece, Piece.reading] at hreading

theorem scan_of_finished {cursor after : Cursor} {marker : Token}
    (h : cursor.next = (.finished marker, after)) : cursor.scan = ([], none) := by
  rw [scan]
  split <;> simp_all

theorem scan_of_refused {cursor after : Cursor} {fault : Fault}
    (h : cursor.next = (.refused fault, after)) : cursor.scan = ([], some fault) := by
  rw [scan]
  split <;> simp_all

theorem scan_of_token {cursor after : Cursor} {t : Token} (h : cursor.next = (.token t, after)) :
    cursor.scan = (t :: after.scan.1, after.scan.2) := by
  rw [scan]
  split <;> simp_all

/-- A scan depends only on what is read next. -/
theorem scan_congr {cursor other : Cursor} (h : cursor.next = other.next) :
    cursor.scan = other.scan := by
  rcases hother : other.next with ⟨reading, after⟩
  cases reading with
  | token t => rw [scan_of_token hother, scan_of_token (h.trans hother)]
  | refused fault => rw [scan_of_refused hother, scan_of_refused (h.trans hother)]
  | finished marker => rw [scan_of_finished hother, scan_of_finished (h.trans hother)]

/-- What holds of every token that can be read holds of the tokens of a scan. -/
theorem forall_mem_scan {P : Token → Prop}
    (hP : ∀ {cursor after : Cursor} {t : Token}, cursor.next = (.token t, after) → P t)
    (cursor : Cursor) : ∀ t ∈ cursor.scan.1, P t := by
  induction cursor using scan.induct with
  | case1 cursor marker after hnext => simp [scan_of_finished hnext]
  | case2 cursor fault after hnext => simp [scan_of_refused hnext]
  | case3 cursor t after hnext ts fault hscan ih =>
      rw [scan_of_token hnext]
      intro t' ht'
      rcases List.mem_cons.1 ht' with rfl | ht'
      · exact hP hnext
      · exact ih t' ht'

end MiniPascal.Cursor

namespace MiniPascal

theorem scan_of_scanText {text : String} {ts : List Token} (h : scanText text = .ok ts) :
    (Cursor.ofString text).scan = (ts, none) := by
  unfold scanText at h
  split at h
  · next hscan => rw [hscan, Except.ok.inj h]
  · simp at h

theorem scan_of_scanText_error {text : String} {fault : Fault} (h : scanText text = .error fault) :
    ∃ ts, (Cursor.ofString text).scan = (ts, some fault) := by
  unfold scanText at h
  split at h
  · simp at h
  · next ts found hscan => exact ⟨ts, by rw [hscan, Except.error.inj h]⟩

end MiniPascal
