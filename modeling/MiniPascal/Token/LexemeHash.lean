/-!
# The hash of lexemes

Bytes are added one by one to a 64-bit sum that moves up by five bits for each;
a final mix spreads the sum over all bits of the result.
-/

namespace MiniPascal

/-- The sum of the bytes written so far, modulo `2 ^ 64`. -/
structure LexemeHash where
  sum : UInt64
  deriving DecidableEq

namespace LexemeHash

/-- Nothing written yet. -/
def empty : LexemeHash :=
  ⟨0⟩

/-- Write one byte. -/
def push (h : LexemeHash) (byte : UInt8) : LexemeHash :=
  ⟨(h.sum <<< 5) + byte.toUInt64⟩

/-- Write some bytes in order. -/
def write (h : LexemeHash) (bytes : List UInt8) : LexemeHash :=
  bytes.foldl push h

/-- The bytes of a text, in UTF-8. -/
def utf8 (text : String) : List UInt8 :=
  text.toUTF8.data.toList

/-- Write a text and the byte that closes it, which occurs in no text. -/
def writeText (h : LexemeHash) (text : String) : LexemeHash :=
  (h.write (utf8 text)).push 0xff

/-- Fold the upper half of a word onto its lower half. -/
def fold (x : UInt64) : UInt64 :=
  x ^^^ (x >>> 33)

/-- The hash of what has been written. -/
def finish (h : LexemeHash) : UInt64 :=
  fold (fold (fold h.sum * 0xff51afd7ed558ccd) * 0xc4ceb9fe1a85ec53)

end LexemeHash

end MiniPascal
