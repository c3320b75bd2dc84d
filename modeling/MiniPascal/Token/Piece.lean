import MiniPascal.Token.Category

/-!
# Pieces of a text

A text without leading blanks and comments falls into pieces: lexemes, stray
characters, and quoted strings that are never closed.  `munch` takes off the
longest piece at the front, and no character is lost on the way.
-/

namespace MiniPascal

/-- Letters, digits and the underscore, all of them ASCII. -/
def isWordChar (c : Char) : Bool :=
  c.isAlphanum || c == '_'

/-- Either quote opens a string, and either one closes it. -/
def isQuote (c : Char) : Bool :=
  c == '\'' || c == '"'

/-- A quoted string goes on past every character but a quote and a line feed. -/
def staysQuoted (c : Char) : Bool :=
  !isQuote c && c != '\n'

/-- The characters that separate lexemes. -/
def isBlank (c : Char) : Bool :=
  c == ' ' || c == '\t' || c == '\n' || c == '\r'

/-- Lexemes with one spelling each, longer ones first. -/
def fixedLexemes : List (List Char × Category) :=
  [([':', '='], .assignmentOperator),
   (['<', '='], .relationalOperator), (['<', '>'], .relationalOperator),
   (['>', '='], .relationalOperator),
   (['<'], .relationalOperator), (['>'], .relationalOperator), (['='], .relationalOperator),
   (['+'], .arithmeticOperator), (['-'], .arithmeticOperator), (['*'], .arithmeticOperator),
   (['/'], .arithmeticOperator),
   (['\x7b'], .symbol), (['\x7d'], .symbol), ([';'], .symbol), (['('], .symbol), ([')'], .symbol),
   (['.'], .symbol), ([','], .symbol), ([':'], .symbol)]

/-- What stands at the front of a text. -/
inductive Piece where
  /-- A lexeme and its category. -/
  | lexeme (category : Category) (chars : List Char)
  /-- A character that begins no lexeme. -/
  | stray (c : Char)
  /-- A quoted string that its line does not close, with the line feed if there is one. -/
  | unclosed (chars : List Char)
  deriving DecidableEq

namespace Piece

/-- The characters that a piece covers. -/
def chars : Piece → List Char
  | lexeme _ cs => cs
  | stray c => [c]
  | unclosed cs => cs

end Piece

/-- Digits, and after a point the digits of the fraction, of which there may be none. -/
def munchNumber (cs : List Char) : Piece × List Char :=
  match cs.dropWhile Char.isDigit with
  | '.' :: ds =>
      (.lexeme .realNumber (cs.takeWhile Char.isDigit ++ '.' :: ds.takeWhile Char.isDigit),
        ds.dropWhile Char.isDigit)
  | ds => (.lexeme .integerNumber (cs.takeWhile Char.isDigit), ds)

/-- A whole word, reserved or not. -/
def munchWord (cs : List Char) : Piece × List Char :=
  (.lexeme (Category.ofWord (String.ofList (cs.takeWhile isWordChar))) (cs.takeWhile isWordChar),
    cs.dropWhile isWordChar)

/-- A string that begins with the quote `c`; it ends with the first quote after that, unless a
line feed or the end of the text comes first. -/
def munchQuoted (c : Char) (cs : List Char) : Piece × List Char :=
  match cs.dropWhile staysQuoted with
  | [] => (.unclosed (c :: cs.takeWhile staysQuoted), [])
  | d :: ds =>
      if isQuote d then
        (.lexeme .string (c :: cs.takeWhile staysQuoted ++ [d]), ds)
      else
        (.unclosed (c :: cs.takeWhile staysQuoted ++ [d]), ds)

/-- The first of the fixed lexemes that the text begins with. -/
def fixedLexeme? (cs : List Char) : Option (List Char × Category) :=
  fixedLexemes.find? fun entry => entry.1.isPrefixOf cs

/-- The longest piece at the front of the text `c :: cs`, and what follows it. -/
def munch (c : Char) (cs : List Char) : Piece × List Char :=
  if c.isDigit then
    munchNumber (c :: cs)
  else if isWordChar c then
    munchWord (c :: cs)
  else if isQuote c then
    munchQuoted c cs
  else
    match fixedLexeme? (c :: cs) with
    | some (lexeme, category) => (.lexeme category lexeme, (c :: cs).drop lexeme.length)
    | none => (.stray c, cs)

theorem munchNumber_append (cs : List Char) :
    (munchNumber cs).1.chars ++ (munchNumber cs).2 = cs := by
  have hsplit := List.takeWhile_append_dropWhile (p := Char.isDigit) (l := cs)
  unfold munchNumber
  split
  · next ds hds =>
      rw [hds] at hsplit
      simp only [Piece.chars, List.append_assoc, List.cons_append,
        List.takeWhile_append_dropWhile]
      exact hsplit
  · exact hsplit

theorem munchWord_append (cs : List Char) :
    (munchWord cs).1.chars ++ (munchWord cs).2 = cs :=
  List.takeWhile_append_dropWhile

theorem munchQuoted_append (c : Char) (cs : List Char) :
    (munchQuoted c cs).1.chars ++ (munchQuoted c cs).2 = c :: cs := by
  have hsplit := List.takeWhile_append_dropWhile (p := staysQuoted) (l := cs)
  unfold munchQuoted
  split
  · next hds =>
      rw [hds] at hsplit
      simpa [Piece.chars] using hsplit
  · next d ds hds =>
      rw [hds] at hsplit
      split <;> simpa [Piece.chars] using hsplit

theorem isPrefixOf_of_fixedLexeme? {cs lexeme : List Char} {category : Category}
    (h : fixedLexeme? cs = some (lexeme, category)) : lexeme.isPrefixOf cs := by
  simpa using List.find?_some h

/-- Taking a piece off a text loses no character. -/
theorem munch_append (c : Char) (cs : List Char) :
    (munch c cs).1.chars ++ (munch c cs).2 = c :: cs := by
  unfold munch
  split
  · exact munchNumber_append (c :: cs)
  · split
    · exact munchWord_append (c :: cs)
    · split
      · exact munchQuoted_append c cs
      · split
        · next lexeme category h =>
            obtain ⟨tail, htail⟩ := List.isPrefixOf_iff_prefix.1 (isPrefixOf_of_fixedLexeme? h)
            simp [Piece.chars, ← htail]
        · rfl

/-- Every piece covers at least one character. -/
theorem munch_chars_ne_nil (c : Char) (cs : List Char) : (munch c cs).1.chars ≠ [] := by
  unfold munch
  split
  · next hdigit =>
      unfold munchNumber
      split <;> simp [Piece.chars, hdigit]
  · split
    · next hword => simp [munchWord, Piece.chars, hword]
    · split
      · unfold munchQuoted
        split
        · simp [Piece.chars]
        · split <;> simp [Piece.chars]
      · split
        · next lexeme category h =>
            have hmem := List.mem_of_find?_eq_some h
            have hall : ∀ entry ∈ fixedLexemes, entry.1 ≠ [] := by decide
            exact hall _ hmem
        · simp [Piece.chars]

/-- What follows a piece is shorter than the text. -/
theorem munch_rest_length_lt (c : Char) (cs : List Char) :
    (munch c cs).2.length < (c :: cs).length := by
  have hlength := congrArg List.length (munch_append c cs)
  have hpos := List.length_pos_iff.2 (munch_chars_ne_nil c cs)
  rw [List.length_append] at hlength
  omega

end MiniPascal
