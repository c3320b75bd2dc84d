import MiniPascal.Proofs.Places

/-!
# Reading back and forth

A reader is called in any order.  What matters of all the calls so far is how many
characters they consumed, whether the end of the text was met, and whether the last read
can still be taken back: a `Mark` keeps just that, and the reader is a function of the
mark and the text (`after_eq_reader`).
-/

namespace MiniPascal

/-- The place that is shown once `index` characters of a text are consumed: that of the last one, or
where the text ends if its end was met. -/
def placeAt (text : List Char) (index : Nat) (ended : Bool) : Nat × Nat :=
  if ended then (1 + text.count '\n', (lastLine text).length)
  else if index = 0 then (1, 0)
  else placeBehind (text.take (index - 1))

namespace Cursor

/-- The cursor behind the first `index` characters of a text. -/
def behind (text : List Char) (index : Nat) : Cursor :=
  ⟨Location.start.advanceAll (text.take index), text.drop index⟩

/-- The cursor at the end of a text, once that was met. -/
def atEnd (text : List Char) : Cursor :=
  ⟨(Location.start.advanceAll text).settle, []⟩

theorem behind_length (text : List Char) :
    behind text text.length = ⟨Location.start.advanceAll text, []⟩ := by
  simp [behind]

/-- One character more is consumed. -/
theorem behind_succ {text : List Char} {index : Nat} {c : Char} (h : text[index]? = some c) :
    behind text (index + 1) =
        ⟨(behind text index).location.advance c, text.drop (index + 1)⟩ ∧
      (behind text index).rest = c :: text.drop (index + 1) := by
  obtain ⟨hindex, rfl⟩ := List.getElem?_eq_some_iff.1 h
  have htake : text.take (index + 1) = text.take index ++ [text[index]] := by simp
  refine ⟨?_, List.drop_eq_getElem_cons hindex⟩
  simp only [behind, htake, Location.advanceAll_concat]

end Cursor

namespace Reader

/-- What a reader can be called for. -/
inductive Call where
  | read
  | unread
  | position
  deriving DecidableEq

/-- The reader after a call; a position is only looked at. -/
def perform (r : Reader) : Call → Reader
  | .read => r.read.2
  | .unread => r.unread
  | .position => r

/-- The reader of a text after some calls. -/
def after (text : String) (history : List Call) : Reader :=
  history.foldl perform (ofString text)

theorem after_concat (text : String) (history : List Call) (call : Call) :
    after text (history ++ [call]) = (after text history).perform call := by
  simp [after, List.foldl_append]

/-- What the calls so far have come to. -/
structure Mark where
  /-- How many characters are consumed. -/
  index : Nat
  /-- The end of the text was met. -/
  ended : Bool
  /-- The last read can be taken back. -/
  undoable : Bool

namespace Mark

/-- Nothing was read. -/
def start : Mark :=
  ⟨0, false, false⟩

/-- The mark after a call on a text of some length. -/
def step (length : Nat) (m : Mark) : Call → Mark
  | .read => if m.index < length then ⟨m.index + 1, m.ended, true⟩ else ⟨m.index, true, false⟩
  | .unread => if m.undoable then ⟨m.index - 1, m.ended, false⟩ else m
  | .position => m

theorem step_read_of_lt {m : Mark} {length : Nat} (h : m.index < length) :
    m.step length .read = ⟨m.index + 1, m.ended, true⟩ :=
  if_pos h

theorem step_read_of_eq {m : Mark} {length : Nat} (h : m.index = length) :
    m.step length .read = ⟨m.index, true, false⟩ :=
  if_neg (by omega)

theorem step_unread_of_undoable {m : Mark} (length : Nat) (h : m.undoable = true) :
    m.step length .unread = ⟨m.index - 1, m.ended, false⟩ :=
  if_pos h

theorem step_unread_of_not_undoable {m : Mark} (length : Nat) (h : m.undoable = false) :
    m.step length .unread = m :=
  if_neg (by simp [h])

/-- The mark after some calls. -/
def run (length : Nat) (history : List Call) : Mark :=
  history.foldl (step length) start

theorem run_concat (length : Nat) (history : List Call) (call : Call) :
    run length (history ++ [call]) = (run length history).step length call := by
  simp [run, List.foldl_append]

/-- A mark that calls on a text of this length can come to. -/
structure Fits (m : Mark) (length : Nat) : Prop where
  inside : m.index ≤ length
  ended : m.ended = true → m.index = length
  undoable : m.undoable = true → 0 < m.index ∧ m.ended = false

theorem Fits.ended_eq_false {m : Mark} {length : Nat} (h : m.Fits length)
    (hindex : m.index < length) : m.ended = false := by
  apply Bool.eq_false_iff.2
  intro hended
  exact absurd (h.ended hended) (Nat.ne_of_lt hindex)

theorem Fits.perform {m : Mark} {length : Nat} (h : m.Fits length) (call : Call) :
    (m.step length call).Fits length := by
  cases call with
  | position => exact h
  | read =>
      rcases Nat.lt_or_eq_of_le h.inside with hindex | hindex
      · have hended := h.ended_eq_false hindex
        rw [step_read_of_lt hindex]
        exact ⟨hindex, by simp [hended], fun _ => ⟨Nat.succ_pos _, hended⟩⟩
      · rw [step_read_of_eq hindex]
        exact ⟨h.inside, fun _ => hindex, by simp⟩
  | unread =>
      cases hundo : m.undoable with
      | false =>
          rw [step_unread_of_not_undoable length hundo]
          exact h
      | true =>
          obtain ⟨-, hended⟩ := h.undoable hundo
          rw [step_unread_of_undoable length hundo]
          exact ⟨Nat.le_trans (Nat.sub_le _ _) h.inside, by simp [hended], by simp⟩

theorem run_fits (length : Nat) (history : List Call) : (run length history).Fits length := by
  induction history using List.reverseRecOn with
  | nil => exact ⟨Nat.zero_le _, by simp [run, start], by simp [run, start]⟩
  | append_singleton history call ih =>
      rw [run_concat]
      exact ih.perform call

/-- The reader that a mark stands for. -/
def reader (text : List Char) (m : Mark) : Reader where
  cursor := if m.ended then Cursor.atEnd text else Cursor.behind text m.index
  previous := if m.undoable then some (Cursor.behind text (m.index - 1)) else none

variable {text : List Char} {m : Mark}

theorem read_of_getElem? (h : m.Fits text.length) {c : Char} (hc : text[m.index]? = some c) :
    (m.reader text).read = (some c, (m.step text.length .read).reader text) := by
  obtain ⟨hindex, -⟩ := List.getElem?_eq_some_iff.1 hc
  obtain ⟨hbehind, hrest⟩ := Cursor.behind_succ hc
  have hended := h.ended_eq_false hindex
  rw [step_read_of_lt hindex]
  simp [Reader.read, reader, hended, hrest, hbehind]

theorem read_of_atEnd (hindex : m.index = text.length) :
    (m.reader text).read = (none, (m.step text.length .read).reader text) := by
  rw [step_read_of_eq hindex]
  cases hended : m.ended with
  | false =>
      -- the end was not met before, so the location settles now
      have hcursor : (m.reader text).cursor = ⟨Location.start.advanceAll text, []⟩ := by
        simp only [reader, hended, hindex, Bool.false_eq_true, if_false, Cursor.behind_length]
      simp only [Reader.read, hcursor]
      rfl
  | true =>
      have hcursor : (m.reader text).cursor = Cursor.atEnd text := by
        simp only [reader, hended, if_true]
      simp only [Reader.read, hcursor, Cursor.atEnd, Location.settle_settle]
      rfl

theorem unread_reader (h : m.Fits text.length) :
    (m.reader text).unread = (m.step text.length .unread).reader text := by
  cases hundo : m.undoable with
  | false =>
      rw [step_unread_of_not_undoable _ hundo]
      simp [Reader.unread, reader, hundo]
  | true =>
      obtain ⟨-, hended⟩ := h.undoable hundo
      rw [step_unread_of_undoable _ hundo]
      simp [Reader.unread, reader, hundo, hended]

theorem perform_reader (h : m.Fits text.length) (call : Call) :
    (m.reader text).perform call = (m.step text.length call).reader text := by
  cases call with
  | position => rfl
  | unread => exact unread_reader h
  | read =>
      rcases Nat.lt_or_eq_of_le h.inside with hindex | hindex
      · exact congrArg Prod.snd (read_of_getElem? h (List.getElem?_eq_getElem hindex))
      · exact congrArg Prod.snd (read_of_atEnd hindex)

/-- The place that a reader shows depends on the index and the end alone. -/
theorem position_reader (m : Mark) (hindex : m.index ≤ text.length) :
    (m.reader text).position = placeAt text m.index m.ended := by
  cases hended : m.ended with
  | true =>
      simp [position, reader, placeAt, hended, Cursor.atEnd, Location.settle_advanceAll_start]
  | false =>
      obtain hzero | ⟨i, hi⟩ : m.index = 0 ∨ ∃ i, m.index = i + 1 := by
        cases m.index <;> simp
      · simp [position, reader, placeAt, hended, hzero, Cursor.behind, Location.start]
      · have hlt : i < text.length := by omega
        have hplace := Location.advanceAll_start_concat (text.take i) text[i]
        rw [List.take_append_getElem hlt] at hplace
        simpa [position, reader, placeAt, hended, hi, Cursor.behind] using hplace

/-- Looking at the position changes nothing, however often. -/
theorem run_positions (length : Nat) (history : List Call) (n : Nat) :
    run length (history ++ List.replicate n .position) = run length history := by
  induction n with
  | zero => simp
  | succ n ih =>
      rw [List.replicate_succ', ← List.append_assoc, run_concat, ih]
      rfl

/-- Taking back a read that answered a character, also after looking at the position. -/
theorem run_of_undone {length : Nat} {history : List Call} (n : Nat)
    (hindex : (run length history).index < length) :
    run length (history ++ .read :: List.replicate n .position ++ [.unread]) =
      ⟨(run length history).index, (run length history).ended, false⟩ := by
  have hsplit : history ++ .read :: List.replicate n .position =
      history ++ [.read] ++ List.replicate n .position := by simp
  rw [run_concat, hsplit, run_positions, run_concat, step_read_of_lt hindex]
  rfl

/-- What was taken back is read again. -/
theorem run_of_redone {length : Nat} {history : List Call} (n : Nat)
    (hindex : (run length history).index < length) :
    run length (history ++ .read :: List.replicate n .position ++ [.unread] ++ [.read]) =
      run length (history ++ [.read]) := by
  rw [run_concat, run_of_undone n hindex, run_concat, step_read_of_lt hindex]
  exact step_read_of_lt hindex

/-- Nothing else can be taken back. -/
theorem exists_read_of_undoable {length : Nat} {history : List Call}
    (hundo : (run length history).undoable = true) :
    ∃ before n, history = before ++ .read :: List.replicate n .position ∧
      (run length before).index < length := by
  induction history using List.reverseRecOn with
  | nil => simp [run, start] at hundo
  | append_singleton history call ih =>
      rw [run_concat] at hundo
      cases call with
      | position =>
          obtain ⟨before, n, rfl, hindex⟩ := ih hundo
          exact ⟨before, n + 1, by simp [List.replicate_succ'], hindex⟩
      | read =>
          rcases Nat.lt_or_eq_of_le (run_fits length history).inside with hindex | hindex
          · exact ⟨history, 0, rfl, hindex⟩
          · simp [step_read_of_eq hindex] at hundo
      | unread =>
          cases hbefore : (run length history).undoable with
          | true => simp [step_unread_of_undoable length hbefore] at hundo
          | false => simp [step_unread_of_not_undoable length hbefore, hbefore] at hundo

end Mark

theorem after_eq_reader (text : String) (history : List Call) :
    after text history = (Mark.run text.toList.length history).reader text.toList := by
  induction history using List.reverseRecOn with
  | nil => rfl
  | append_singleton history call ih =>
      rw [after_concat, Mark.run_concat, ih, Mark.perform_reader (Mark.run_fits _ history)]

/-- The position after some calls is that of their mark. -/
theorem position_after (text : String) (history : List Call) :
    (after text history).position = placeAt text.toList
      (Mark.run text.toList.length history).index (Mark.run text.toList.length history).ended := by
  rw [after_eq_reader]
  exact Mark.position_reader _ (Mark.run_fits _ history).inside

/-- A read that answered a character is taken back as a whole, and then done again. -/
theorem read_after_undone {text : String} {history : List Call} {c : Char} (n : Nat)
    (hc : text.toList[(Mark.run text.toList.length history).index]? = some c) :
    let undone := history ++ .read :: List.replicate n .position ++ [.unread]
    (after text undone).position = (after text history).position ∧
      (after text undone).read.1 = some c ∧
      (after text (undone ++ [.read])).position = (after text (history ++ [.read])).position := by
  intro undone
  obtain ⟨hindex, -⟩ := List.getElem?_eq_some_iff.1 hc
  have hundone : Mark.run text.toList.length undone = _ := Mark.run_of_undone n hindex
  have hredone : Mark.run text.toList.length (undone ++ [.read]) = _ := Mark.run_of_redone n hindex
  have hc' : text.toList[(Mark.run text.toList.length undone).index]? = some c := by
    rw [hundone]
    exact hc
  refine ⟨?_, ?_, ?_⟩
  · rw [position_after, position_after, hundone]
  · rw [after_eq_reader, Mark.read_of_getElem? (Mark.run_fits _ undone) hc']
  · rw [position_after, position_after, hredone]

/-- After every history of calls the reader of a text is accounted for by the number of characters
that are consumed then and by whether the end of the text was met. -/
structure Follows (text : String) (index : List Call → Nat) (ended : List Call → Bool) : Prop where
  start : index [] = 0 ∧ ended [] = false
  inside : ∀ history, index history ≤ text.length ∧
    (ended history = true → index history = text.length)
  read : ∀ history c, text.toList[index history]? = some c →
    (after text history).read.1 = some c ∧
      index (history ++ [.read]) = index history + 1 ∧ ended (history ++ [.read]) = false
  /-- At the end of the text a read answers nothing, and it cannot be taken back. -/
  readAtEnd : ∀ history, index history = text.length →
    (after text history).read.1 = none ∧
      index (history ++ [.read]) = index history ∧ ended (history ++ [.read]) = true ∧
      (after text (history ++ [.read])).unread = after text (history ++ [.read])
  look : ∀ history, after text (history ++ [.position]) = after text history ∧
    index (history ++ [.position]) = index history ∧ ended (history ++ [.position]) = ended history
  /-- The last call but for positions answered a character: it is taken back as a whole, and the
  next read does it again. -/
  undo : ∀ history n c, text.toList[index history]? = some c →
    let undone := history ++ .read :: List.replicate n .position ++ [.unread]
    index undone = index history ∧ ended undone = ended history ∧
      (after text undone).position = (after text history).position ∧
      (after text undone).read.1 = some c ∧
      (after text (undone ++ [.read])).position = (after text (history ++ [.read])).position
  /-- Nothing else is taken back. -/
  undoNothing : ∀ history, (∀ before n c, text.toList[index before]? = some c →
      history ≠ before ++ .read :: List.replicate n .position) →
    after text (history ++ [.unread]) = after text history ∧
      index (history ++ [.unread]) = index history ∧ ended (history ++ [.unread]) = ended history
  position : ∀ history,
    (after text history).position = placeAt text.toList (index history) (ended history)

/-- **Reading back and forth.**  Whatever a reader is called for, and in whatever order, an index
into the text and an end flag account for it: for the characters that it answers, for what can be
taken back, and for the position. -/
theorem exists_follows (text : String) : ∃ index ended, Follows text index ended := by
  have hfits (history : List Call) :
      (Mark.run text.toList.length history).Fits text.toList.length :=
    Mark.run_fits text.toList.length history
  refine ⟨fun history => (Mark.run text.toList.length history).index,
    fun history => (Mark.run text.toList.length history).ended, ?_⟩
  constructor
  case start => exact ⟨rfl, rfl⟩
  case position => exact position_after text
  case inside =>
    intro history
    rw [← String.length_toList]
    exact ⟨(hfits history).inside, (hfits history).ended⟩
  case read =>
    intro history c hc
    obtain ⟨hindex, -⟩ := List.getElem?_eq_some_iff.1 hc
    rw [after_eq_reader, Mark.read_of_getElem? (hfits history) hc, Mark.run_concat,
      Mark.step_read_of_lt hindex]
    exact ⟨rfl, rfl, (hfits history).ended_eq_false hindex⟩
  case readAtEnd =>
    intro history hindex
    rw [← String.length_toList] at hindex
    rw [after_eq_reader, Mark.read_of_atEnd hindex, after_eq_reader, Mark.run_concat,
      Mark.step_read_of_eq hindex]
    exact ⟨rfl, rfl, rfl, rfl⟩
  case look =>
    intro history
    rw [after_concat, Mark.run_concat]
    exact ⟨rfl, rfl, rfl⟩
  case undo =>
    intro history n c hc
    obtain ⟨hindex, -⟩ := List.getElem?_eq_some_iff.1 hc
    have hundone := Mark.run_of_undone n hindex
    exact ⟨by rw [hundone], by rw [hundone], read_after_undone n hc⟩
  case undoNothing =>
    intro history hnothing
    have hundo : (Mark.run text.toList.length history).undoable = false := by
      apply Bool.eq_false_iff.2
      intro hundo
      obtain ⟨before, n, hhistory, hindex⟩ := Mark.exists_read_of_undoable hundo
      exact hnothing before n _ (List.getElem?_eq_getElem hindex) hhistory
    rw [after_eq_reader, after_eq_reader, Mark.run_concat,
      Mark.step_unread_of_not_undoable _ hundo]
    exact ⟨rfl, rfl, rfl⟩

end Reader

end MiniPascal
