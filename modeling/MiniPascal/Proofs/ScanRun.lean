import MiniPascal.Proofs.Gaps
import MiniPascal.Proofs.ScanSteps
import MiniPascal.Registry

/-!
# Scanning on after faults

A scanner that is called again and again, whatever it answers, loses nothing of its
text: every character belongs to a skipped gap or to the piece that one answer is
about.  It gets to the end of the text, stays there, and registers the tokens it
has answered and nothing else.
-/

namespace MiniPascal

/-- A cursor, and the registry that its tokens go to. -/
structure Scanner where
  cursor : Cursor
  registry : Registry

namespace Scanner

/-- A scanner at the start of a text. -/
def start (text : String) (registry : Registry) : Scanner :=
  ⟨Cursor.ofString text, registry⟩

/-- Read one token, or say why there is none. -/
def call (s : Scanner) : Reading × Scanner :=
  (s.cursor.next.1, ⟨s.cursor.next.2, s.registry.record s.cursor.next.1⟩)

/-- The answers to some calls, one after the other, and the scanner after them. -/
def calls : Nat → Scanner → List Reading × Scanner
  | 0, s => ([], s)
  | n + 1, s => (s.call.1 :: (calls n s.call.2).1, (calls n s.call.2).2)

end Scanner

namespace Reading

/-- The token that a reading answers, if it is one. -/
def tokens : Reading → List Token
  | token t => [t]
  | _ => []

/-- The reading is about these characters, which `rest` follows: the lexeme of its token, the
character that begins no lexeme, or the string that is not closed, through the line feed or the end
of the text. -/
inductive Covers : Reading → List Char → List Char → Prop
  | token {t : Token} {rest : List Char} : Covers (.token t) t.lexeme.toList rest
  | stray {fault : Fault} {c : Char} {rest : List Char} (hkind : fault.kind = .unknownCharacter)
      (hlexeme : fault.lexeme = some c.toString) : Covers (.refused fault) [c] rest
  | unclosed {fault : Fault} {quote : Char} {body rest : List Char}
      (hkind : fault.kind = .stringNotClosed) (hquote : isQuote quote = true)
      (hbody : ∀ c ∈ body, staysQuoted c = true) :
      Covers (.refused fault) (quote :: (body ++ ['\n'])) rest
  | unclosedAtEnd {fault : Fault} {quote : Char} {body : List Char}
      (hkind : fault.kind = .stringNotClosed) (hquote : isQuote quote = true)
      (hbody : ∀ c ∈ body, staysQuoted c = true) : Covers (.refused fault) (quote :: body) []

end Reading

/-- A call before the end of the text: what was skipped, what the answer is about, and the answer. -/
structure ScanStep where
  gap : List Char
  piece : List Char
  reading : Reading

/-- All characters of a step. -/
def ScanStep.chars (step : ScanStep) : List Char :=
  step.gap ++ step.piece

/-- The characters are those of the steps, in order, and of a last gap. -/
inductive Accounts : List ScanStep → List Char → Prop
  | finished {cs : List Char} (hgap : IsLastGap cs) : Accounts [] cs
  | step {step : ScanStep} {steps : List ScanStep} {cs : List Char} (hgap : IsGap step.gap)
      (hne : step.piece ≠ []) (hcovers : step.reading.Covers step.piece cs)
      (hsteps : Accounts steps cs) : Accounts (step :: steps) (step.chars ++ cs)

theorem covers_lexeme (category : Category) (chars rest : List Char) (l : Location) :
    ((Piece.lexeme category chars).reading l).Covers chars rest := by
  have hcovers : ((Piece.lexeme category chars).reading l).Covers (String.ofList chars).toList
      rest := .token
  rwa [String.toList_ofList] at hcovers

/-- A string that is not closed goes on through a line feed or the end of the text. -/
theorem covers_munchQuoted {c : Char} (hc : isQuote c = true) (cs : List Char) (l : Location) :
    ((munchQuoted c cs).1.reading l).Covers (munchQuoted c cs).1.chars (munchQuoted c cs).2 := by
  have hbody : ∀ d ∈ cs.takeWhile staysQuoted, staysQuoted d = true :=
    fun d hd => List.all_eq_true.1 List.all_takeWhile d hd
  unfold munchQuoted
  split
  · exact .unclosedAtEnd rfl hc hbody
  · next d ds hds =>
      have hstays : staysQuoted d = false := by
        have hhead := List.head?_dropWhile_not staysQuoted cs
        simpa [hds] using hhead
      split
      · exact covers_lexeme _ _ _ l
      · next hquote =>
          have hd : d = '\n' := by simpa [staysQuoted, hquote] using hstays
          rw [hd]
          exact .unclosed rfl hc hbody

/-- A piece is what its reading is about. -/
theorem covers_munch (c : Char) (cs : List Char) (l : Location) :
    ((munch c cs).1.reading l).Covers (munch c cs).1.chars (munch c cs).2 := by
  unfold munch
  split
  · unfold munchNumber
    split <;> exact covers_lexeme _ _ _ l
  · split
    · exact covers_lexeme _ _ _ l
    · split
      · next hquote => exact covers_munchQuoted hquote cs l
      · split
        · exact covers_lexeme _ _ _ l
        · exact .stray rfl rfl

namespace Cursor

/-- Either nothing but a last gap is left, and reading goes on to answer so, or some of the text is
skipped and some of it answered. -/
theorem next_cases (cursor : Cursor) :
    (IsLastGap cursor.rest ∧ ∃ line column after,
        cursor.next = (.finished (Token.endOfFile line column), after) ∧
        after.next = (.finished (Token.endOfFile line column), after)) ∨
      ∃ gap piece reading after, cursor.next = (reading, after) ∧ IsGap gap ∧ piece ≠ [] ∧
        reading.Covers piece after.rest ∧ cursor.rest = gap ++ piece ++ after.rest := by
  obtain ⟨gap, hskips⟩ := exists_skips cursor.location cursor.rest
  cases hrest : cursor.skipBlanks.rest with
  | nil =>
      -- the location settles at the end of the text, so reading again changes nothing
      have hgap : cursor.rest = gap := by
        have hsplit := hskips.split
        rwa [show (skipGap false cursor.location cursor.rest).rest = [] from hrest,
          List.append_nil] at hsplit
      have hlast : IsLastGap cursor.rest := by
        rw [hgap]
        exact hskips.isGap.elim .closed And.right
      refine .inl ⟨hlast, _, _, _, next_of_rest_nil hrest, ?_⟩
      simp [next, skipBlanks, skipGap, readPiece]
  | cons c cs =>
      -- something follows, so no comment was left open
      have hgap : IsGap gap := by
        rcases hskips.isGap with hgap | ⟨hnil, -⟩
        · exact hgap
        · exact absurd (hrest.symm.trans hnil) (List.cons_ne_nil c cs)
      have hsplit : cursor.rest = gap ++ (munch c cs).1.chars ++ (munch c cs).2 := by
        rw [List.append_assoc, munch_append, ← hrest]
        exact hskips.split
      exact .inr ⟨gap, _, _, _, next_of_rest_cons hrest, hgap, munch_chars_ne_nil c cs,
        covers_munch c cs _, hsplit⟩

end Cursor

namespace Registry

@[simp]
theorem toList_insert (r : Registry) (t : Token) : (r.insert t).toList = r.toList ++ [t] :=
  Array.toList_push

@[simp]
theorem toList_insertAll (r : Registry) (ts : List Token) :
    (r.insertAll ts).toList = r.toList ++ ts := by
  induction ts generalizing r with
  | nil => simp [insertAll]
  | cons t ts ih =>
      have hrest := ih (r.insert t)
      rwa [toList_insert, List.append_assoc] at hrest

theorem record_eq_insertAll (r : Registry) (reading : Reading) :
    r.record reading = r.insertAll reading.tokens := by
  cases reading <;> rfl

end Registry

namespace Scanner

/-- One call more. -/
theorem calls_succ (n : Nat) (s : Scanner) :
    calls (n + 1) s = ((calls n s).1 ++ [(calls n s).2.call.1], (calls n s).2.call.2) := by
  induction n generalizing s with
  | zero => rfl
  | succ n ih =>
      rw [calls, ih]
      rfl

/-- A cursor that stays at the end of the text answers so for ever. -/
theorem calls_of_finished {cursor : Cursor} {marker : Token}
    (h : cursor.next = (.finished marker, cursor)) (registry : Registry) (n : Nat) :
    calls n ⟨cursor, registry⟩ = (List.replicate n (.finished marker), ⟨cursor, registry⟩) := by
  induction n with
  | zero => rfl
  | succ n ih =>
      have hcall : call ⟨cursor, registry⟩ = (.finished marker, ⟨cursor, registry⟩) := by
        simp [call, h, Registry.record]
      rw [calls, hcall, ih]
      rfl

/-- The registry gains the tokens that were answered. -/
theorem calls_registry (n : Nat) (s : Scanner) :
    (calls n s).2.registry = s.registry.insertAll ((calls n s).1.flatMap Reading.tokens) := by
  induction n generalizing s with
  | zero => rfl
  | succ n ih =>
      have hcall : s.call.2.registry = s.registry.insertAll s.call.1.tokens :=
        Registry.record_eq_insertAll s.registry s.call.1
      rw [calls, ih, hcall, List.flatMap_cons, Registry.insertAll, Registry.insertAll,
        ← List.foldl_append]
      rfl

/-- From every cursor some steps lead to the end of the text, and account for all of it. -/
theorem exists_steps (cursor : Cursor) :
    ∃ steps line column, Accounts steps cursor.rest ∧ steps.length ≤ cursor.rest.length ∧
      ∀ registry k, (calls (steps.length + k) ⟨cursor, registry⟩).1 =
        steps.map ScanStep.reading ++
          List.replicate k (.finished (Token.endOfFile line column)) := by
  -- a step leaves less of the text than there was
  induction hlength : cursor.rest.length using Nat.strongRecOn generalizing cursor with
  | ind n ih =>
      rcases cursor.next_cases with ⟨hlast, line, column, after, hnext, hstays⟩ |
        ⟨gap, piece, reading, after, hnext, hgap, hne, hcovers, hsplit⟩
      · refine ⟨[], line, column, .finished hlast, Nat.zero_le n, fun registry k => ?_⟩
        rw [List.length_nil, Nat.zero_add]
        cases k with
        | zero => rfl
        | succ k =>
            have hcall : call ⟨cursor, registry⟩ =
                (.finished (Token.endOfFile line column), ⟨after, registry⟩) := by
              simp [call, hnext, Registry.record]
            rw [calls, hcall, calls_of_finished hstays]
            rfl
      · have hpiece := List.length_pos_iff.2 hne
        have hshorter : after.rest.length < n := by
          rw [← hlength, hsplit]
          simp only [List.length_append]
          omega
        obtain ⟨steps, line, column, haccounts, hcount, hcalls⟩ := ih _ hshorter after rfl
        refine ⟨⟨gap, piece, reading⟩ :: steps, line, column, ?_, ?_, fun registry k => ?_⟩
        · rw [hsplit]
          exact .step hgap hne hcovers haccounts
        · simp only [List.length_cons]
          omega
        · have hcall : call ⟨cursor, registry⟩ = (reading, ⟨after, registry.record reading⟩) := by
            simp [call, hnext]
          rw [List.length_cons, Nat.add_right_comm, calls, hcall, hcalls]
          rfl

end Scanner

/-- **Scanning loses nothing.**  A scanner that is called again and again, also after faults, answers
each of some steps and from then on the end of the text, always with the same marker.  There are no
more steps than characters; the steps, each with a gap and what its answer is about, and a last gap
are the text.  After any number of calls the registry holds what it held before and behind it the
tokens that were answered, in order; a call that answers no token leaves it alone, and so does every
call at the end of the text. -/
theorem calls_lossless (text : String) (registry : Registry) :
    ∃ steps line column,
      Accounts steps text.toList ∧
      steps.length ≤ text.length ∧
      (∀ k, (Scanner.calls (steps.length + k) (Scanner.start text registry)).1 =
        steps.map ScanStep.reading ++
          List.replicate k (.finished (Token.endOfFile line column))) ∧
      (∀ n, (Scanner.calls n (Scanner.start text registry)).2.registry.toList =
        registry.toList ++
          (Scanner.calls n (Scanner.start text registry)).1.flatMap Reading.tokens) ∧
      (∀ n, (Scanner.calls n (Scanner.start text registry)).2.call.1.tokens = [] →
        (Scanner.calls (n + 1) (Scanner.start text registry)).2.registry =
          (Scanner.calls n (Scanner.start text registry)).2.registry) ∧
      ∀ k, (Scanner.calls (steps.length + k) (Scanner.start text registry)).2.registry =
          registry.insertAll (steps.flatMap fun step => step.reading.tokens) ∧
        (Scanner.calls (steps.length + k) (Scanner.start text registry)).2.registry.toList =
          registry.toList ++ steps.flatMap fun step => step.reading.tokens := by
  obtain ⟨steps, line, column, haccounts, hcount, hcalls⟩ :=
    Scanner.exists_steps (Cursor.ofString text)
  have hregistry (n : Nat) := Scanner.calls_registry n (Scanner.start text registry)
  have hmarkers (k : Nat) : (List.replicate k (Reading.finished (Token.endOfFile line column))).flatMap
      Reading.tokens = [] := by
    simp [Reading.tokens]
  have hend (k : Nat) : (Scanner.calls (steps.length + k) (Scanner.start text registry)).2.registry =
      registry.insertAll (steps.flatMap fun step => step.reading.tokens) := by
    have hreadings := hcalls registry k
    rw [hregistry, Scanner.start, hreadings, List.flatMap_append, hmarkers, List.append_nil,
      List.flatMap_map]
  refine ⟨steps, line, column, haccounts, String.length_toList (s := text) ▸ hcount,
    hcalls registry, fun n => ?_, fun n hnone => ?_, fun k => ⟨hend k, ?_⟩⟩
  · rw [hregistry, Registry.toList_insertAll]
    rfl
  · rw [hregistry, Scanner.calls_succ, List.flatMap_append, List.flatMap_singleton, hnone,
      List.append_nil, ← hregistry]
  · rw [hend, Registry.toList_insertAll]

/-- A name, a character that begins no lexeme, and a string that is not closed.  Only the name goes
to the registry, behind the token that was there, and the end of the text adds nothing. -/
theorem calls_lossless_faults :
    (Scanner.calls 5 (Scanner.start "x ?'y" (.ofList [⟨.symbol, ";", 1, 1⟩]))).1 =
        [.token ⟨.identifier, "x", 1, 1⟩,
          .refused ((Fault.placed .unknownCharacter 1 3).quoting "?"),
          .refused (Fault.placed .stringNotClosed 1 5),
          .finished (Token.endOfFile 1 5), .finished (Token.endOfFile 1 5)] ∧
      (Scanner.calls 5 (Scanner.start "x ?'y" (.ofList [⟨.symbol, ";", 1, 1⟩]))).2.registry.toList =
        [⟨.symbol, ";", 1, 1⟩, ⟨.identifier, "x", 1, 1⟩] := by
  have hreadings : (Scanner.calls 5 (Scanner.start "x ?'y" (.ofList [⟨.symbol, ";", 1, 1⟩]))).1 =
      [.token ⟨.identifier, "x", 1, 1⟩,
        .refused ((Fault.placed .unknownCharacter 1 3).quoting "?"),
        .refused (Fault.placed .stringNotClosed 1 5),
        .finished (Token.endOfFile 1 5), .finished (Token.endOfFile 1 5)] := by decide +kernel
  obtain ⟨-, -, -, -, -, -, hregistry, -⟩ :=
    calls_lossless "x ?'y" (.ofList [⟨.symbol, ";", 1, 1⟩])
  refine ⟨hreadings, ?_⟩
  rw [hregistry, hreadings]
  rfl

end MiniPascal
