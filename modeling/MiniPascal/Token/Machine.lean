import MiniPascal.Token.Scan

/-!
# The scanning machine

The machine reads one character at a time, until a token is complete or a fault is found.
It is between tokens or inside a lexeme; the character that shows a lexeme to be complete
and does not belong to it is taken back.
-/

namespace MiniPascal

/-- What the machine is inside of. -/
inductive ScanState where
  /-- Nothing: between tokens. -/
  | initial
  /-- Letters, digits and underscores. -/
  | word
  /-- Digits. -/
  | integer
  /-- Digits behind a point. -/
  | fraction
  /-- A less or greater sign. -/
  | relational
  /-- A colon. -/
  | colon
  /-- A quoted string. -/
  | text
  deriving DecidableEq

/-- The machine between two characters: its state, and what it has read of a lexeme. -/
structure Machine where
  state : ScanState
  lexeme : List Char
  reader : Reader

namespace Reader

theorem read_rest_length_lt {r after : Reader} {c : Char} (h : r.read = (some c, after)) :
    after.cursor.rest.length < r.cursor.rest.length := by
  unfold read at h
  split at h
  · simp at h
  · next hrest =>
      obtain ⟨-, rfl⟩ := Prod.mk.inj h
      simp [hrest]

/-- Read through the next line feed, or to the end of the text. -/
def skipLine (r : Reader) : Reader :=
  match _h : r.read with
  | (none, after) => after
  | (some c, after) => if c == '\n' then after else after.skipLine
termination_by r.cursor.rest.length
decreasing_by exact read_rest_length_lt _h

theorem read_of_rest_nil {r : Reader} (h : r.cursor.rest = []) :
    r.read = (none, ⟨⟨r.cursor.location.settle, []⟩, none⟩) := by
  simp [read, h]

theorem read_of_rest_cons {r : Reader} {c : Char} {cs : List Char} (h : r.cursor.rest = c :: cs) :
    r.read = (some c, ⟨⟨r.cursor.location.advance c, cs⟩, some r.cursor⟩) := by
  simp [read, h]

theorem skipLine_of_rest_nil {r : Reader} (h : r.cursor.rest = []) :
    r.skipLine = ⟨⟨r.cursor.location.settle, []⟩, none⟩ := by
  rw [skipLine]
  split
  · next hread => exact (Prod.mk.inj (hread.symm.trans (read_of_rest_nil h))).2
  · next hread => simp [read_of_rest_nil h] at hread

theorem skipLine_of_rest_cons {r : Reader} {c : Char} {cs : List Char}
    (h : r.cursor.rest = c :: cs) :
    r.skipLine =
      if c == '\n' then ⟨⟨r.cursor.location.advance c, cs⟩, some r.cursor⟩
      else skipLine ⟨⟨r.cursor.location.advance c, cs⟩, some r.cursor⟩ := by
  rw [skipLine]
  split
  · next hread => simp [read_of_rest_cons h] at hread
  · next hread =>
      obtain ⟨hc, rfl⟩ := Prod.mk.inj (hread.symm.trans (read_of_rest_cons h))
      obtain rfl := Option.some.inj hc
      rfl

theorem skipLine_rest_length_le (r : Reader) :
    r.skipLine.cursor.rest.length ≤ r.cursor.rest.length := by
  induction hrest : r.cursor.rest generalizing r with
  | nil => simp [skipLine_of_rest_nil hrest]
  | cons c cs ih =>
      rw [skipLine_of_rest_cons hrest]
      split
      · simp
      · exact Nat.le_succ_of_le (ih _ rfl)

end Reader

namespace Machine

/-- What one step comes to. -/
inductive Step where
  | goesOn (m : Machine)
  | answers (reading : Reading) (r : Reader)

/-- A token of a complete lexeme. -/
def complete (r : Reader) (category : Category) (lexeme : List Char) : Step :=
  .answers (.token ⟨category, String.ofList lexeme, r.position.1, r.position.2⟩) r

/-- A fault where the reader is. -/
def fail (r : Reader) (kind : FaultKind) : Fault :=
  Fault.placed kind r.position.1 r.position.2

/-- The step on the first character of a lexeme or a gap. -/
def startStep (c : Char) (r : Reader) : Step :=
  if isBlank c then
    .goesOn ⟨.initial, [], r⟩
  else if c == '/' then
    match r.read with
    | (some '/', after) => .goesOn ⟨.initial, [], after.skipLine⟩
    | (_, after) => complete after.unread .arithmeticOperator [c]
  else if c.isDigit then
    .goesOn ⟨.integer, [c], r⟩
  else if isWordChar c then
    .goesOn ⟨.word, [c], r⟩
  else if c == ':' then
    .goesOn ⟨.colon, [c], r⟩
  else if isQuote c then
    .goesOn ⟨.text, [c], r⟩
  else if c ∈ ['\x7b', '\x7d', ';', '(', ')', '.', ','] then
    complete r .symbol [c]
  else if c ∈ ['+', '-', '*'] then
    complete r .arithmeticOperator [c]
  else if c ∈ ['<', '>'] then
    .goesOn ⟨.relational, [c], r⟩
  else if c == '=' then
    complete r .relationalOperator [c]
  else
    .answers (.refused ((fail r .unknownCharacter).quoting c.toString)) r

/-- Read one character. -/
def step (m : Machine) : Step :=
  match m.state, m.reader.read with
  | .initial, (none, r) => .answers (.finished (Token.endOfFile r.position.1 r.position.2)) r
  | .initial, (some c, r) => startStep c r
  | .word, (none, r) => complete r (Category.ofWord (String.ofList m.lexeme)) m.lexeme
  | .word, (some c, r) =>
      if isWordChar c then
        .goesOn ⟨.word, m.lexeme ++ [c], r⟩
      else
        complete r.unread (Category.ofWord (String.ofList m.lexeme)) m.lexeme
  | .integer, (none, r) => complete r .integerNumber m.lexeme
  | .integer, (some c, r) =>
      if c.isDigit then
        .goesOn ⟨.integer, m.lexeme ++ [c], r⟩
      else if c == '.' then
        .goesOn ⟨.fraction, m.lexeme ++ [c], r⟩
      else
        complete r.unread .integerNumber m.lexeme
  | .fraction, (none, r) => complete r .realNumber m.lexeme
  | .fraction, (some c, r) =>
      if c.isDigit then
        .goesOn ⟨.fraction, m.lexeme ++ [c], r⟩
      else
        complete r.unread .realNumber m.lexeme
  | .relational, (none, r) => complete r .relationalOperator m.lexeme
  | .relational, (some c, r) =>
      if c == '=' || (c == '>' && m.lexeme == ['<']) then
        complete r .relationalOperator (m.lexeme ++ [c])
      else
        complete r.unread .relationalOperator m.lexeme
  | .colon, (none, r) => complete r .symbol m.lexeme
  | .colon, (some c, r) =>
      if c == '=' then
        complete r .assignmentOperator (m.lexeme ++ [c])
      else
        complete r.unread .symbol m.lexeme
  | .text, (none, r) => .answers (.refused (fail r .stringNotClosed)) r
  | .text, (some c, r) =>
      if c == '\n' then
        .answers (.refused (fail r .stringNotClosed)) r
      else if isQuote c then
        complete r .string (m.lexeme ++ [c])
      else
        .goesOn ⟨.text, m.lexeme ++ [c], r⟩

/-- What a step goes on with has so many characters left at most. -/
def Step.Leaves (n : Nat) : Step → Prop
  | goesOn m => m.reader.cursor.rest.length ≤ n
  | answers _ _ => True

theorem Step.Leaves.ite {p : Prop} [Decidable p] {a b : Step} {n : Nat} (ha : a.Leaves n)
    (hb : b.Leaves n) : (if p then a else b).Leaves n := by
  by_cases h : p
  · rwa [if_pos h]
  · rwa [if_neg h]

theorem startStep_leaves (c : Char) (r : Reader) :
    (startStep c r).Leaves r.cursor.rest.length := by
  have hstays (state : ScanState) (lexeme : List Char) :
      (Step.goesOn ⟨state, lexeme, r⟩).Leaves r.cursor.rest.length := Nat.le_refl _
  rw [startStep]
  refine .ite (hstays ..) (.ite ?_ ?_)
  · split
    · next after hread =>
        exact Nat.le_trans after.skipLine_rest_length_le
          (Nat.le_of_lt (Reader.read_rest_length_lt hread))
    · trivial
  · repeat' refine .ite ?_ ?_
    all_goals first
      | exact hstays ..
      | trivial

/-- A step that goes on has read something. -/
theorem rest_length_lt_of_step {m n : Machine} (h : m.step = .goesOn n) :
    n.reader.cursor.rest.length < m.reader.cursor.rest.length := by
  obtain ⟨state, lexeme, r⟩ := m
  rcases hread : r.read with ⟨_ | c, after⟩
  · rw [step, hread] at h
    cases state <;> cases h
  · have hlt : after.cursor.rest.length < r.cursor.rest.length := Reader.read_rest_length_lt hread
    rw [step, hread] at h
    cases state with
    | initial =>
        have hleaves := startStep_leaves c after
        rw [show startStep c after = .goesOn n from h] at hleaves
        exact Nat.lt_of_le_of_lt hleaves hlt
    | word | integer | fraction | relational | colon | text =>
        dsimp only at h
        repeat' split at h
        all_goals first
          | cases h; exact hlt
          | cases h

/-- Go on until there is an answer. -/
def run (m : Machine) : Reading × Reader :=
  match _h : m.step with
  | .goesOn n => n.run
  | .answers reading r => (reading, r)
termination_by m.reader.cursor.rest.length
decreasing_by exact rest_length_lt_of_step _h

end Machine

/-- Read one token, or say why there is none. -/
def Reader.next (r : Reader) : Reading × Reader :=
  Machine.run ⟨.initial, [], r⟩

end MiniPascal
