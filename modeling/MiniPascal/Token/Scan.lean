import MiniPascal.Fault
import MiniPascal.Source.Cursor
import MiniPascal.Token.Piece

/-!
# Scanning

A cursor reads the next token of its text after skipping blanks and comments.
Reading goes on after a fault; at the end of the text it gives the same marker
for ever.  A scan collects the tokens up to the first fault.
-/

namespace MiniPascal

/-- The answer of one attempt to read a token. -/
inductive Reading where
  | token (t : Token)
  | refused (fault : Fault)
  | finished (marker : Token)
  deriving DecidableEq

/-- What a piece that ends at `l` is read as. -/
def Piece.reading (l : Location) : Piece → Reading
  | .lexeme category chars => .token ⟨category, String.ofList chars, l.line, l.column⟩
  | .stray c => .refused ((Fault.placed .unknownCharacter l.line l.column).quoting c.toString)
  | .unclosed _ => .refused (Fault.placed .stringNotClosed l.line l.column)

namespace Cursor

/-- Skip blanks and comments.  A comment runs from two slashes through the next line feed;
`inComment` says that one is open. -/
def skipGap (inComment : Bool) (l : Location) : List Char → Cursor
  | [] => ⟨l, []⟩
  | c :: cs =>
      if inComment then
        skipGap (c != '\n') (l.advance c) cs
      else if isBlank c then
        skipGap false (l.advance c) cs
      else if c == '/' && cs.head? == some '/' then
        skipGap true (l.advance c) cs
      else
        ⟨l, c :: cs⟩

/-- The cursor behind the blanks and comments at the front. -/
def skipBlanks (cursor : Cursor) : Cursor :=
  skipGap false cursor.location cursor.rest

/-- Read the piece at the front, which is neither a blank nor a comment. -/
def readPiece : Cursor → Reading × Cursor
  | ⟨l, []⟩ =>
      (.finished (Token.endOfFile l.settle.line l.settle.column), ⟨l.settle, []⟩)
  | ⟨l, c :: cs⟩ =>
      ((munch c cs).1.reading (l.advanceAll (munch c cs).1.chars),
        ⟨l.advanceAll (munch c cs).1.chars, (munch c cs).2⟩)

/-- Read one token, or say why there is none. -/
def next (cursor : Cursor) : Reading × Cursor :=
  cursor.skipBlanks.readPiece

theorem skipGap_rest_length_le (inComment : Bool) (l : Location) (cs : List Char) :
    (skipGap inComment l cs).rest.length ≤ cs.length := by
  induction cs generalizing inComment l with
  | nil => simp [skipGap]
  | cons c cs ih =>
      unfold skipGap
      split
      · exact Nat.le_succ_of_le (ih _ _)
      · split
        · exact Nat.le_succ_of_le (ih _ _)
        · split
          · exact Nat.le_succ_of_le (ih _ _)
          · exact Nat.le_refl _

/-- Reading a token consumes some of the text. -/
theorem next_rest_length_lt {cursor after : Cursor} {t : Token}
    (h : cursor.next = (.token t, after)) : after.rest.length < cursor.rest.length := by
  have hgap : cursor.skipBlanks.rest.length ≤ cursor.rest.length :=
    skipGap_rest_length_le false cursor.location cursor.rest
  unfold next at h
  match hfront : cursor.skipBlanks with
  | ⟨l, []⟩ => simp [hfront, readPiece] at h
  | ⟨l, c :: cs⟩ =>
      rw [hfront] at h hgap
      simp only [readPiece, Prod.mk.injEq] at h
      rw [← h.2]
      exact Nat.lt_of_lt_of_le (munch_rest_length_lt c cs) hgap

/-- The tokens up to the end of the text or the first fault, and that fault. -/
def scan (cursor : Cursor) : List Token × Option Fault :=
  match _h : cursor.next with
  | (.finished _, _) => ([], none)
  | (.refused fault, _) => ([], some fault)
  | (.token t, after) =>
      let (ts, fault) := after.scan
      (t :: ts, fault)
termination_by cursor.rest.length
decreasing_by exact next_rest_length_lt _h

end Cursor

/-- The tokens of a whole text, or the first fault in it. -/
def scanText (text : String) : Except Fault (List Token) :=
  match (Cursor.ofString text).scan with
  | (ts, none) => .ok ts
  | (_, some fault) => .error fault

end MiniPascal
