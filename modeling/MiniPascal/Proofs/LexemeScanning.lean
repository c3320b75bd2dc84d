import MiniPascal.Proofs.Gaps
import MiniPascal.Proofs.LayoutDerivation
import MiniPascal.Proofs.ScanSteps

/-!
# Scanning lexemes

A piece is taken off the front of a text that does not carry it on (`Munches`).
What a text is scanned to does not depend on the place it stands at.  The text is
taken from its end: a lexeme may be put in front of a text that does not carry it
on, and a blank in front of any text.
-/

namespace MiniPascal

/-- The characters are scanned to tokens with these terminals, and to no fault, wherever they
stand. -/
def Scans (cs : List Char) (ts : List Terminal) : Prop :=
  ∀ l, ∃ tokens, (Cursor.mk l cs).scan = (tokens, none) ∧ tokens.map Token.terminal = ts

/-- No name and no number is carried on by these characters. -/
def isBoundary (cs : List Char) : Bool :=
  cs.head?.all fun c => !isWordChar c && c != '.'

/-- Characters that satisfy `p`, up to one that does not, are all that can be taken. -/
theorem span_of_head? {p : Char → Bool} {cs rest : List Char} (hcs : ∀ c ∈ cs, p c = true)
    (hrest : rest.head?.any p = false) :
    (cs ++ rest).takeWhile p = cs ∧ (cs ++ rest).dropWhile p = rest := by
  rw [List.takeWhile_append_of_pos hcs, List.dropWhile_append_of_pos hcs]
  cases rest with
  | nil => simp
  | cons c rest =>
      have hc : p c = false := by simpa using hrest
      simp [hc]

theorem isBlank_eq_false {c : Char} (hc : isWordChar c = true) : isBlank c = false := by
  have hword : ∀ d : Char, isBlank d = true → isWordChar d = false := by
    intro d hd
    simp only [isBlank, Bool.or_eq_true, beq_iff_eq] at hd
    rcases hd with ((rfl | rfl) | rfl) | rfl <;> rfl
  cases hblank : isBlank c with
  | false => rfl
  | true => simp [hword c hblank] at hc

theorem isWordChar_of_isDigit {c : Char} (hc : c.isDigit = true) : isWordChar c = true := by
  simp [isWordChar, Char.isAlphanum, hc]

theorem isDigit_eq_false {c : Char} (hc : isWordChar c = false) : c.isDigit = false := by
  cases hdigit : c.isDigit with
  | false => rfl
  | true => simp [isWordChar_of_isDigit hdigit] at hc

theorem isWordChar_of_isBoundary {cs : List Char} (h : isBoundary cs = true) :
    cs.head?.any isWordChar = false := by
  cases cs with
  | nil => rfl
  | cons c cs =>
      obtain ⟨hc, -⟩ : isWordChar c = false ∧ c ≠ '.' := by simpa [isBoundary] using h
      simpa using hc

theorem isDigit_of_isBoundary {cs : List Char} (h : isBoundary cs = true) :
    cs.head?.any Char.isDigit = false := by
  have hword := isWordChar_of_isBoundary h
  cases cs with
  | nil => rfl
  | cons c cs =>
      have hdigit : c.isDigit = false := isDigit_eq_false (by simpa using hword)
      simpa using hdigit

/-- An integer ends in front of everything but a point and another digit. -/
theorem munchNumber_integer {digits rest : List Char} (hdigits : ∀ c ∈ digits, c.isDigit = true)
    (hrest : rest.head?.any Char.isDigit = false) (hpoint : rest.head? ≠ some '.') :
    munchNumber (digits ++ rest) = (.lexeme .integerNumber digits, rest) := by
  obtain ⟨htake, hdrop⟩ := span_of_head? hdigits hrest
  unfold munchNumber
  rw [hdrop, htake]
  split
  · simp at hpoint
  · rfl

/-- A real number ends in front of everything but another digit. -/
theorem munchNumber_real {whole fraction rest : List Char}
    (hwhole : ∀ c ∈ whole, c.isDigit = true) (hfraction : ∀ c ∈ fraction, c.isDigit = true)
    (hrest : rest.head?.any Char.isDigit = false) :
    munchNumber (whole ++ '.' :: fraction ++ rest) =
      (.lexeme .realNumber (whole ++ '.' :: fraction), rest) := by
  have hpoint : ('.' :: (fraction ++ rest)).head?.any Char.isDigit = false := rfl
  obtain ⟨htake, hdrop⟩ := span_of_head? hwhole hpoint
  obtain ⟨htake', hdrop'⟩ := span_of_head? hfraction hrest
  have hassoc : whole ++ '.' :: fraction ++ rest = whole ++ '.' :: (fraction ++ rest) := by simp
  simp only [hassoc, munchNumber, hdrop, htake, htake', hdrop']

theorem munch_of_isQuote {c : Char} (hc : isQuote c = true) (cs : List Char) :
    munch c cs = munchQuoted c cs := by
  obtain rfl | rfl : c = '\'' ∨ c = '"' := by simpa [isQuote] using hc
  all_goals rfl

/-- The piece is taken off the front of the characters, and `rest` is left. -/
def Munches : List Char → Piece → List Char → Prop
  | [], _, _ => False
  | c :: cs, piece, rest => munch c cs = (piece, rest)

namespace Munches

variable {cs rest : List Char}

theorem word {c : Char} (hdigit : c.isDigit = false)
    (hcs : ∀ d ∈ c :: cs, isWordChar d = true) (hrest : rest.head?.any isWordChar = false) :
    Munches (c :: cs ++ rest) (.lexeme (Category.ofWord (String.ofList (c :: cs))) (c :: cs))
      rest := by
  obtain ⟨htake, hdrop⟩ := span_of_head? hcs hrest
  rw [List.cons_append] at htake hdrop
  simp only [Munches, List.cons_append, munch, hdigit, hcs c List.mem_cons_self, munchWord, htake,
    hdrop, if_true, Bool.false_eq_true, if_false]

/-- What begins with a digit is a number. -/
theorem of_munchNumber {digits : List Char} {piece : Piece} (hne : digits ≠ [])
    (hdigits : ∀ d ∈ digits, d.isDigit = true) (h : munchNumber (digits ++ cs) = (piece, rest)) :
    Munches (digits ++ cs) piece rest := by
  obtain ⟨c, ds, rfl⟩ := List.exists_cons_of_ne_nil hne
  rw [List.cons_append, Munches, munch, if_pos (hdigits c List.mem_cons_self)]
  exact h

/-- A lexeme with a fixed spelling. -/
theorem fixed {c : Char} {category : Category} {chars : List Char}
    (hc : (isWordChar c || isQuote c) = false)
    (hfixed : fixedLexeme? (c :: cs) = some (chars, category))
    (hrest : (c :: cs).drop chars.length = rest) :
    Munches (c :: cs) (.lexeme category chars) rest := by
  obtain ⟨hword, hquote⟩ := Bool.or_eq_false_iff.1 hc
  have hdigit := isDigit_eq_false hword
  simp [Munches, munch, hdigit, hword, hquote, hfixed, hrest]

/-- A quote behind a quote and the characters of a string closes it. -/
theorem string {quote d : Char} {body : List Char} (hquote : isQuote quote = true)
    (hbody : ∀ c ∈ body, staysQuoted c = true) (hd : isQuote d = true) :
    Munches (quote :: (body ++ d :: rest)) (.lexeme .string (quote :: body ++ [d])) rest := by
  have hstops : (d :: rest).head?.any staysQuoted = false := by simp [staysQuoted, hd]
  obtain ⟨htake, hdrop⟩ := span_of_head? hbody hstops
  rw [Munches, munch_of_isQuote hquote]
  simp only [munchQuoted, htake, hdrop, hd, if_true]

/-- A line feed breaks a string off. -/
theorem brokenString {quote : Char} {body : List Char} (hquote : isQuote quote = true)
    (hbody : ∀ c ∈ body, staysQuoted c = true) :
    Munches (quote :: (body ++ '\n' :: rest)) (.unclosed (quote :: body ++ ['\n'])) rest := by
  have hstops : ('\n' :: rest).head?.any staysQuoted = false := rfl
  obtain ⟨htake, hdrop⟩ := span_of_head? hbody hstops
  rw [Munches, munch_of_isQuote hquote]
  simp only [munchQuoted, htake, hdrop]
  rfl

/-- So does the end of the text. -/
theorem openString {quote : Char} {body : List Char} (hquote : isQuote quote = true)
    (hbody : ∀ c ∈ body, staysQuoted c = true) :
    Munches (quote :: body) (.unclosed (quote :: body)) [] := by
  have hstops : ([] : List Char).head?.any staysQuoted = false := rfl
  obtain ⟨htake, hdrop⟩ := span_of_head? hbody hstops
  rw [List.append_nil] at htake hdrop
  rw [Munches, munch_of_isQuote hquote]
  simp only [munchQuoted, htake, hdrop]

end Munches

namespace Scans

theorem nil : Scans [] [] := by
  intro l
  exact ⟨[], Cursor.scan_of_finished rfl, rfl⟩

/-- The tokens of a whole text. -/
theorem scanText_eq_ok {text : String} {ts : List Terminal} (h : Scans text.toList ts) :
    ∃ tokens, scanText text = .ok tokens ∧ tokens.map Token.terminal = ts := by
  obtain ⟨tokens, hscan, htokens⟩ := h Location.start
  exact ⟨tokens, by rw [scanText, Cursor.ofString, hscan], htokens⟩

/-- A blank in front does not matter. -/
theorem blank {c : Char} {cs : List Char} {ts : List Terminal} (hc : isBlank c = true)
    (h : Scans cs ts) : Scans (c :: cs) ts := by
  intro l
  obtain ⟨tokens, hscan, htokens⟩ := h (l.advance c)
  have hskip : (Cursor.mk l (c :: cs)).next = (Cursor.mk (l.advance c) cs).next :=
    congrArg Cursor.readPiece (Cursor.skipGap_blank hc l cs)
  exact ⟨tokens, (Cursor.scan_congr hskip).trans hscan, htokens⟩

theorem blanks {cs : List Char} {ts : List Terminal} (width : Nat) (h : Scans cs ts) :
    Scans ((margin width).toList ++ cs) ts := by
  rw [margin, String.toList_ofList]
  induction width with
  | zero => exact h
  | succ width ih => exact ih.blank rfl

/-- A lexeme stands in front if it is what is munched there. -/
theorem lexeme {c : Char} {cs chars rest : List Char} {category : Category} {ts : List Terminal}
    (hblank : isBlank c = false) (hcomment : (c == '/' && cs.head? == some '/') = false)
    (hmunches : Munches (c :: cs) (.lexeme category chars) rest) (h : Scans rest ts) :
    Scans (c :: cs) (⟨category, String.ofList chars⟩ :: ts) := by
  intro l
  have hmunch : munch c cs = (.lexeme category chars, rest) := hmunches
  obtain ⟨tokens, hscan, htokens⟩ := h (l.advanceAll chars)
  have hstop : (Cursor.mk l (c :: cs)).skipBlanks = ⟨l, c :: cs⟩ :=
    Cursor.skipGap_stop hblank hcomment l
  have hnext : (Cursor.mk l (c :: cs)).next =
      (.token ⟨category, String.ofList chars, (l.advanceAll chars).line,
        (l.advanceAll chars).column⟩, ⟨l.advanceAll chars, rest⟩) := by
    rw [Cursor.next_of_rest_cons (congrArg Cursor.rest hstop), hstop, hmunch]
    rfl
  refine ⟨_ :: tokens, by rw [Cursor.scan_of_token hnext, hscan], ?_⟩
  simp [htokens, Token.terminal]

/-- A lexeme that begins with a word character stands in front if it is what is munched there. -/
theorem lexeme_of_isWordChar {c : Char} {cs chars rest : List Char} {category : Category}
    {ts : List Terminal} (hc : isWordChar c = true)
    (hmunches : Munches (c :: cs) (.lexeme category chars) rest) (h : Scans rest ts) :
    Scans (c :: cs) (⟨category, String.ofList chars⟩ :: ts) := by
  refine lexeme (isBlank_eq_false hc) ?_ hmunches h
  have hslash : c ≠ '/' := by
    rintro rfl
    exact absurd hc (by decide)
  simp [hslash]

/-- A word stands in front of a text that does not carry it on. -/
theorem word {w : String} {rest : List Char} {ts : List Terminal} (hw : isWord w = true)
    (hrest : rest.head?.any isWordChar = false) (h : Scans rest ts) :
    Scans (w.toList ++ rest) (⟨Category.ofWord w, w⟩ :: ts) := by
  obtain ⟨hhead, hall⟩ := Bool.and_eq_true_iff.1 hw
  have hchars : ∀ c ∈ w.toList, isWordChar c = true := List.all_eq_true.1 hall
  cases hcs : w.toList with
  | nil => simp [hcs] at hhead
  | cons c cs =>
      have hdigit : c.isDigit = false := by simpa [hcs] using hhead
      have hc : isWordChar c = true := hchars c (by simp [hcs])
      have hlexeme : w = String.ofList (c :: cs) := by rw [← hcs, String.ofList_toList]
      have hscans := lexeme_of_isWordChar hc (.word hdigit (hcs ▸ hchars) hrest) h
      rwa [← hlexeme] at hscans

/-- A reserved word stands in front of a text that does not carry it on. -/
theorem reservedWord {w : String} {rest : List Char} {ts : List Terminal} (hw : w ∈ reservedWords)
    (hrest : rest.head?.any isWordChar = false) (h : Scans rest ts) :
    Scans (w.toList ++ rest) (.word w :: ts) := by
  have hwords : reservedWords.all isWord = true := by decide
  have hcategory : Category.ofWord w = .reservedWord := by simp [Category.ofWord, hw]
  have hscans := word (List.all_eq_true.1 hwords w hw) hrest h
  rwa [hcategory] at hscans

/-- The name of a built-in type stands in front of a text that does not carry it on. -/
theorem type (type : TypeName) {rest : List Char} {ts : List Terminal}
    (hrest : rest.head?.any isWordChar = false) (h : Scans rest ts) :
    Scans (type.spelling.toList ++ rest) (.type type :: ts) := by
  have hword : isWord type.spelling = true := by cases type <;> decide
  have hcategory : Category.ofWord type.spelling = .reservedType := by cases type <;> decide
  have hscans := word hword hrest h
  rwa [hcategory] at hscans

/-- A name stands in front of a text that does not carry it on. -/
theorem name {name : String} {rest : List Char} {ts : List Terminal} (hname : isName name = true)
    (hrest : rest.head?.any isWordChar = false) (h : Scans rest ts) :
    Scans (name.toList ++ rest) (.name name :: ts) := by
  obtain ⟨hword, hcategory⟩ := Bool.and_eq_true_iff.1 hname
  have hscans := word hword hrest h
  rwa [eq_of_beq hcategory] at hscans

/-- A lexeme that begins with a digit stands in front if it is the number that is munched
there. -/
theorem lexeme_of_munchNumber {digits cs chars rest : List Char} {category : Category}
    {ts : List Terminal} (hne : digits ≠ []) (hdigits : ∀ c ∈ digits, c.isDigit = true)
    (hmunch : munchNumber (digits ++ cs) = (.lexeme category chars, rest)) (h : Scans rest ts) :
    Scans (digits ++ cs) (⟨category, String.ofList chars⟩ :: ts) := by
  have hmunches := Munches.of_munchNumber hne hdigits hmunch
  obtain ⟨c, digits, rfl⟩ := List.exists_cons_of_ne_nil hne
  exact lexeme_of_isWordChar (isWordChar_of_isDigit (hdigits c List.mem_cons_self)) hmunches h

/-- A number stands in front of a text that does not carry it on. -/
theorem number {kind : NumberKind} {numeral : String} {rest : List Char} {ts : List Terminal}
    (hnumeral : kind.admits numeral = true) (hrest : isBoundary rest = true) (h : Scans rest ts) :
    Scans (numeral.toList ++ rest) (.number kind numeral :: ts) := by
  have hlexeme : String.ofList numeral.toList = numeral := String.ofList_toList
  cases kind with
  | integer =>
      obtain ⟨hne, hdigits⟩ := isIntegerNumeral_iff.1 hnumeral
      have hpoint : rest.head? ≠ some '.' := by
        intro hhead
        simp [isBoundary, hhead] at hrest
      have hmunch := munchNumber_integer hdigits (isDigit_of_isBoundary hrest) hpoint
      have hscans := lexeme_of_munchNumber hne hdigits hmunch h
      rwa [hlexeme] at hscans
  | real =>
      obtain ⟨whole, fraction, htext, hne, hwhole, hfraction⟩ := isRealNumeral_iff.1 hnumeral
      have hmunch := munchNumber_real hwhole hfraction (isDigit_of_isBoundary hrest)
      rw [List.append_assoc] at hmunch
      have hscans := lexeme_of_munchNumber hne hwhole hmunch h
      rwa [← List.append_assoc, ← htext, hlexeme] at hscans

/-- A lexeme with a fixed spelling stands in front if no longer one begins there. -/
theorem fixed {c : Char} {cs chars rest : List Char} {category : Category} {ts : List Terminal}
    (hc : (isWordChar c || isQuote c || isBlank c) = false)
    (hcomment : (c == '/' && cs.head? == some '/') = false)
    (hfixed : fixedLexeme? (c :: cs) = some (chars, category))
    (hrest : (c :: cs).drop chars.length = rest) (h : Scans rest ts) :
    Scans (c :: cs) (⟨category, String.ofList chars⟩ :: ts) := by
  obtain ⟨hc, hblank⟩ := Bool.or_eq_false_iff.1 hc
  exact lexeme hblank hcomment (.fixed hc hfixed hrest) h

/-- An operator stands in front of a blank. -/
theorem operator (op : BinaryOperator) {cs : List Char} {ts : List Terminal} (h : Scans cs ts) :
    Scans (op.spelling.toList ++ ' ' :: cs) (.operator op :: ts) := by
  have hblank : Scans (' ' :: cs) ts := h.blank rfl
  cases op <;> exact hblank.fixed rfl rfl rfl rfl

/-- A sign stands in front of everything. -/
theorem sign (sign : Sign) {cs : List Char} {ts : List Terminal} (h : Scans cs ts) :
    Scans (sign.spelling.toList ++ cs) (.operator sign.operator :: ts) := by
  cases sign <;> exact h.fixed rfl rfl rfl rfl

/-- The symbols that begin no longer lexeme stand in front of everything. -/
theorem symbol {c : Char} {cs : List Char} {ts : List Terminal}
    (hc : c ∈ [';', '(', ')', '.', ',']) (h : Scans cs ts) :
    Scans (c :: cs) (.symbol (String.ofList [c]) :: ts) := by
  simp only [List.mem_cons, List.not_mem_nil, or_false] at hc
  rcases hc with rfl | rfl | rfl | rfl | rfl <;> exact @fixed _ cs [_] cs _ ts rfl rfl rfl rfl h

/-- A colon stands in front of a blank. -/
theorem colon {cs : List Char} {ts : List Terminal} (h : Scans cs ts) :
    Scans (':' :: ' ' :: cs) (.symbol ":" :: ts) :=
  (h.blank rfl).fixed rfl rfl rfl rfl

/-- The sign of an assignment stands in front of everything. -/
theorem becomes {cs : List Char} {ts : List Terminal} (h : Scans cs ts) :
    Scans (':' :: '=' :: cs) (.becomes :: ts) :=
  h.fixed rfl rfl rfl rfl

end Scans

end MiniPascal
