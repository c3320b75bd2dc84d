import Std.Data.HashMap
import MiniPascal.Token.LexemeHash
import MiniPascal.Token.Scan

/-!
# Token registries

A registry holds the tokens of a text in order, and for each lexeme the place
of the first token that is spelled so.
-/

namespace MiniPascal

/-- The spelling of a token, as a key. -/
structure Lexeme where
  text : String
  deriving DecidableEq

instance : Hashable Lexeme where
  hash lexeme := (LexemeHash.empty.writeText lexeme.text).finish

/-- Tokens in the order of insertion, indexed by their lexemes. -/
structure Registry where
  tokens : Array Token
  index : Std.HashMap Lexeme Nat

namespace Registry

/-- The registry without tokens. -/
def empty : Registry :=
  ⟨#[], ∅⟩

/-- Append a token; a lexeme that is known keeps the place of its first token. -/
def insert (r : Registry) (t : Token) : Registry :=
  let place := r.tokens.size
  ⟨r.tokens.push t, r.index.insertIfNew ⟨t.lexeme⟩ place⟩

/-- Append tokens in order. -/
def insertAll (r : Registry) (ts : List Token) : Registry :=
  ts.foldl insert r

/-- The registry of a sequence of tokens. -/
def ofList (ts : List Token) : Registry :=
  empty.insertAll ts

/-- The tokens in the order of insertion. -/
def toList (r : Registry) : List Token :=
  r.tokens.toList

/-- How many tokens were inserted. -/
def size (r : Registry) : Nat :=
  r.tokens.size

/-- No token was inserted. -/
def isEmpty (r : Registry) : Bool :=
  r.tokens.isEmpty

/-- The token inserted first. -/
def first? (r : Registry) : Option Token :=
  r.tokens[0]?

/-- The first token with a given spelling. -/
def search (r : Registry) (lexeme : String) : Option Token :=
  (r.index[Lexeme.mk lexeme]?).bind fun i => r.tokens[i]?

/-- How many different spellings were inserted. -/
def distinctLexemes (r : Registry) : Nat :=
  r.index.size

/-- The registry after a reading: only a token is added. -/
def record (r : Registry) : Reading → Registry
  | .token t => r.insert t
  | .refused _ => r
  | .finished _ => r

/-- Scan a whole text into a registry, keeping the tokens before a fault. -/
def scan (r : Registry) (text : String) : Registry × Option Fault :=
  let (ts, fault) := (Cursor.ofString text).scan
  (r.insertAll ts, fault)

/-- One line for each token, in order. -/
def listing (r : Registry) : String :=
  String.join (r.toList.map fun t => t.listingLine ++ "\n")

end Registry

/-- The registry of a whole text, or the first fault in it. -/
def tokenize (text : String) : Except Fault Registry :=
  (scanText text).map Registry.ofList

end MiniPascal
