import MiniPascal.Proofs.LexemeScanning

/-!
# Longest matches

What is read at a place depends on the longest gap there and on what stands behind it:
the end of the text, a quoted string, or else the longest prefix that is a lexeme.  The
lexemes are described here on their own, without a look at how they are taken off.
-/

namespace MiniPascal

/-- `taken` is the longest prefix of `cs` with the property `P`. -/
structure IsLongestPrefix (P : List Char → Prop) (cs taken : List Char) : Prop where
  starts : taken <+: cs
  holds : P taken
  longest : ∀ other, other <+: cs → P other → other.length ≤ taken.length

/-! ### Gaps -/

namespace Cursor

theorem skipGap_append_of_isGap {gap : List Char} (hgap : IsGap gap) (l : Location)
    (rest : List Char) :
    skipGap false l (gap ++ rest) = skipGap false (l.advanceAll gap) rest := by
  induction hgap generalizing l with
  | nil => rfl
  | blank hc _ ih => rw [List.cons_append, skipGap_blank hc, ih, Location.advanceAll_cons]
  | @comment body cs hbody _ ih =>
      have hsplit : '/' :: '/' :: (body ++ '\n' :: cs) ++ rest =
          '/' :: '/' :: (body ++ '\n' :: (cs ++ rest)) := by simp
      have hlocation : (l.advanceAll ['/', '/']).advanceAll (body ++ ['\n']) =
          l.advanceAll ('/' :: '/' :: (body ++ ['\n'])) := rfl
      rw [hsplit, skipGap_slashes, skipGap_comment hbody, ih, hlocation,
        ← Location.advanceAll_append]
      simp

/-- A comment goes on past every character but a line feed. -/
theorem skipGap_append_of_not_mem {body : List Char} (hbody : '\n' ∉ body) (l : Location)
    (rest : List Char) :
    skipGap true l (body ++ rest) = skipGap true (l.advanceAll body) rest := by
  induction body generalizing l with
  | nil => rfl
  | cons c body ih =>
      simp only [List.mem_cons, not_or] at hbody
      obtain ⟨hc, hothers⟩ := hbody
      have hne : (c != '\n') = true := by simpa using Ne.symm hc
      simp [skipGap, hne, ih hothers]

/-- Nothing of a gap in front is left over. -/
theorem skipGap_rest_length_le_of_isLastGap {gap : List Char} (hgap : IsLastGap gap) (l : Location)
    (rest : List Char) : (skipGap false l (gap ++ rest)).rest.length ≤ rest.length := by
  cases hgap with
  | closed hgap =>
      rw [skipGap_append_of_isGap hgap]
      exact skipGap_rest_length_le false _ rest
  | @unclosed gap body hgap hbody =>
      have hsplit : gap ++ '/' :: '/' :: body ++ rest = gap ++ ('/' :: '/' :: (body ++ rest)) := by
        simp
      rw [hsplit, skipGap_append_of_isGap hgap, skipGap_slashes, skipGap_append_of_not_mem hbody]
      exact skipGap_rest_length_le true _ rest

/-- What is skipped is the longest gap. -/
theorem exists_longestGap (cursor : Cursor) :
    ∃ gap, cursor.rest = gap ++ cursor.skipBlanks.rest ∧
      IsLongestPrefix IsLastGap cursor.rest gap := by
  obtain ⟨gap, hskips⟩ := exists_skips cursor.location cursor.rest
  have hsplit : cursor.rest = gap ++ cursor.skipBlanks.rest := hskips.split
  refine ⟨gap, hsplit, ⟨_, hsplit.symm⟩, hskips.isGap.elim .closed And.right, ?_⟩
  rintro other ⟨rest, hrest⟩ hother
  have hleft := skipGap_rest_length_le_of_isLastGap hother cursor.location rest
  have hlength := congrArg List.length (hrest.trans hsplit)
  rw [hrest] at hleft
  rw [List.length_append, List.length_append] at hlength
  have hskipped : cursor.skipBlanks.rest.length ≤ rest.length := hleft
  omega

end Cursor

/-! ### Lexemes -/

namespace Category

/-- The words of a category. -/
def Classifies : Category → String → Prop
  | reservedWord, word => word ∈ reservedWords
  | reservedType, word => word ∈ reservedTypes
  | reservedOperator, word => word ∈ reservedOperators
  | identifier, word =>
      word ∉ reservedWords ∧ word ∉ reservedTypes ∧ word ∉ reservedOperators
  | _, _ => False

/-- No word is in two tables. -/
theorem classifies_iff {category : Category} {word : String} :
    category.Classifies word ↔ category = ofWord word := by
  have htypes : ∀ w ∈ reservedTypes, w ∉ reservedWords := by decide
  have hoperators : ∀ w ∈ reservedOperators, w ∉ reservedWords ∧ w ∉ reservedTypes := by decide
  by_cases hword : word ∈ reservedWords
  · have htype : word ∉ reservedTypes := fun h => htypes word h hword
    have hoperator : word ∉ reservedOperators := fun h => (hoperators word h).1 hword
    cases category <;> simp [Classifies, ofWord, hword, htype, hoperator]
  by_cases htype : word ∈ reservedTypes
  · have hoperator : word ∉ reservedOperators := fun h => (hoperators word h).2 htype
    cases category <;> simp [Classifies, ofWord, hword, htype, hoperator]
  by_cases hoperator : word ∈ reservedOperators
  · cases category <;> simp [Classifies, ofWord, hword, htype, hoperator]
  · cases category <;> simp [Classifies, ofWord, hword, htype, hoperator]

end Category

/-- The lexemes of a category, but for quoted strings. -/
inductive IsLexeme : Category → List Char → Prop
  | word {category : Category} {first : Char} {cs : List Char}
      (hfirst : (first.isAlpha || first == '_') = true)
      (hcs : ∀ c ∈ cs, (c.isAlpha || c.isDigit || c == '_') = true)
      (hcategory : category.Classifies (String.ofList (first :: cs))) :
      IsLexeme category (first :: cs)
  | integer {digits : List Char} (hne : digits ≠ []) (hdigits : ∀ c ∈ digits, c.isDigit = true) :
      IsLexeme .integerNumber digits
  | real {whole fraction : List Char} (hne : whole ≠ [])
      (hwhole : ∀ c ∈ whole, c.isDigit = true) (hfraction : ∀ c ∈ fraction, c.isDigit = true) :
      IsLexeme .realNumber (whole ++ '.' :: fraction)
  | relational {cs : List Char}
      (hcs : cs ∈ [['<', '='], ['>', '='], ['<', '>'], ['<'], ['>'], ['=']]) :
      IsLexeme .relationalOperator cs
  | becomes : IsLexeme .assignmentOperator [':', '=']
  | arithmetic {c : Char} (hc : c ∈ ['+', '-', '*', '/']) : IsLexeme .arithmeticOperator [c]
  | symbol {c : Char} (hc : c ∈ [':', '\x7b', '\x7d', ';', '(', ')', '.', ',']) :
      IsLexeme .symbol [c]

/-- Letters and the underscore begin words, and digits do not. -/
theorem isWordChar_of_isAlpha_or {c : Char} (h : (c.isAlpha || c == '_') = true) :
    isWordChar c = true ∧ c.isDigit = false := by
  rcases Bool.or_eq_true_iff.1 h with halpha | hunderscore
  · refine ⟨by simp [isWordChar, Char.isAlphanum, halpha], Bool.eq_false_iff.2 fun hdigit => ?_⟩
    have hlast : c.val ≤ 57 := of_decide_eq_true (Bool.and_eq_true_iff.1 hdigit).2
    rcases Bool.or_eq_true_iff.1 halpha with hupper | hlower
    · have hfirst : 65 ≤ c.val := (of_decide_eq_true hupper).1
      exact absurd (UInt32.le_trans hfirst hlast) (by decide)
    · have hfirst : 97 ≤ c.val := of_decide_eq_true (Bool.and_eq_true_iff.1 hlower).1
      exact absurd (UInt32.le_trans hfirst hlast) (by decide)
  · obtain rfl : c = '_' := by simpa using hunderscore
    decide

theorem isAlpha_or_of_isWordChar {c : Char} (h : isWordChar c = true) (hdigit : c.isDigit = false) :
    (c.isAlpha || c == '_') = true := by
  simpa [isWordChar, Char.isAlphanum, hdigit] using h

namespace IsLexeme

variable {category : Category} {c : Char} {cs : List Char}

/-- The first character tells words, numbers and fixed lexemes apart. -/
theorem head_cases (h : IsLexeme category (c :: cs)) :
    (c.isDigit = true ∧
      ((category = .integerNumber ∧ ∀ d ∈ c :: cs, d.isDigit = true) ∨
        category = .realNumber ∧ ∃ whole fraction, c :: cs = whole ++ '.' :: fraction ∧
          (∀ d ∈ whole, d.isDigit = true) ∧ ∀ d ∈ fraction, d.isDigit = true)) ∨
    (c.isDigit = false ∧ isWordChar c = true ∧ (∀ d ∈ c :: cs, isWordChar d = true) ∧
      category.Classifies (String.ofList (c :: cs))) ∨
    (isWordChar c = false ∧ (c :: cs, category) ∈ fixedLexemes) := by
  generalize hchars : c :: cs = chars at h
  cases h with
  | word hfirst hcs hcategory =>
      obtain ⟨rfl, rfl⟩ := List.cons.inj hchars
      obtain ⟨hword, hdigit⟩ := isWordChar_of_isAlpha_or hfirst
      exact .inr (.inl ⟨hdigit, hword, List.forall_mem_cons.2 ⟨hword, hcs⟩, hcategory⟩)
  | integer hne hdigits =>
      subst hchars
      exact .inl ⟨hdigits c (by simp), .inl ⟨rfl, hdigits⟩⟩
  | @real whole fraction hne hwhole hfraction =>
      obtain ⟨d, ds, rfl⟩ := List.exists_cons_of_ne_nil hne
      obtain ⟨rfl, -⟩ := List.cons.inj hchars
      exact .inl ⟨hwhole c (by simp), .inr ⟨rfl, _, _, rfl, hwhole, hfraction⟩⟩
  | relational hcs =>
      have hfixed : ∀ ds ∈ [['<', '='], ['>', '='], ['<', '>'], ['<'], ['>'], ['=']],
          ds.head?.any isWordChar = false ∧ (ds, Category.relationalOperator) ∈ fixedLexemes := by
        decide
      subst hchars
      exact .inr (.inr (by simpa using hfixed _ hcs))
  | becomes =>
      obtain ⟨rfl, rfl⟩ := List.cons.inj hchars
      exact .inr (.inr (by decide))
  | arithmetic hc =>
      have hfixed : ∀ ds ∈ ['+', '-', '*', '/'].map ([·]),
          ds.head?.any isWordChar = false ∧ (ds, Category.arithmeticOperator) ∈ fixedLexemes := by
        decide
      obtain ⟨rfl, rfl⟩ := List.cons.inj hchars
      exact .inr (.inr (hfixed _ (List.mem_map_of_mem hc)))
  | symbol hc =>
      have hfixed : ∀ ds ∈ [':', '\x7b', '\x7d', ';', '(', ')', '.', ','].map ([·]),
          ds.head?.any isWordChar = false ∧ (ds, Category.symbol) ∈ fixedLexemes := by
        decide
      obtain ⟨rfl, rfl⟩ := List.cons.inj hchars
      exact .inr (.inr (hfixed _ (List.mem_map_of_mem hc)))

theorem ne_nil (h : IsLexeme category cs) : cs ≠ [] := by
  rintro rfl
  generalize hchars : [] = chars at h
  cases h with
  | integer hne _ => exact hne hchars.symm
  | relational hcs =>
      subst hchars
      exact absurd hcs (by decide)
  | real _ _ _ => simp at hchars
  | word _ _ _ | becomes | arithmetic _ | symbol _ => simp at hchars

theorem of_mem_fixedLexemes (h : (cs, category) ∈ fixedLexemes) : IsLexeme category cs := by
  have hall : ∀ entry ∈ fixedLexemes,
      entry = ([':', '='], .assignmentOperator) ∨
      (entry.2 = .relationalOperator ∧
        entry.1 ∈ [['<', '='], ['>', '='], ['<', '>'], ['<'], ['>'], ['=']]) ∨
      (entry.2 = .arithmeticOperator ∧ entry.1 ∈ ['+', '-', '*', '/'].map ([·])) ∨
      (entry.2 = .symbol ∧
        entry.1 ∈ [':', '\x7b', '\x7d', ';', '(', ')', '.', ','].map ([·])) := by
    decide
  rcases hall _ h with h | ⟨rfl, hcs⟩ | ⟨rfl, hcs⟩ | ⟨rfl, hcs⟩
  · obtain ⟨rfl, rfl⟩ := Prod.mk.inj h
    exact .becomes
  · exact .relational hcs
  · obtain ⟨d, hd, rfl⟩ := List.mem_map.1 hcs
    exact .arithmetic hd
  · obtain ⟨d, hd, rfl⟩ := List.mem_map.1 hcs
    exact .symbol hd

end IsLexeme

/-- Characters that satisfy `p` are not more than those in front that do. -/
theorem length_le_takeWhile {p : Char → Bool} {cs taken : List Char} (hstarts : taken <+: cs)
    (htaken : ∀ c ∈ taken, p c = true) : taken.length ≤ (cs.takeWhile p).length := by
  obtain ⟨rest, rfl⟩ := hstarts
  rw [List.takeWhile_append_of_pos htaken, List.length_append]
  omega

/-- A lexeme of some category. -/
def IsSomeLexeme (cs : List Char) : Prop :=
  ∃ category, IsLexeme category cs

/-- No longer prefix of the text is a lexeme. -/
structure IsLongestLexeme (cs : List Char) (category : Category) (taken : List Char) : Prop where
  isLexeme : IsLexeme category taken
  isLongest : IsLongestPrefix IsSomeLexeme cs taken

/-- It suffices to look at lexemes that begin as the text does. -/
theorem IsLongestLexeme.of_head {category : Category} {c : Char} {cs taken : List Char}
    (hlexeme : IsLexeme category taken) (hstarts : taken <+: c :: cs)
    (hlongest : ∀ category' ds, c :: ds <+: c :: cs → IsLexeme category' (c :: ds) →
      (c :: ds).length ≤ taken.length) : IsLongestLexeme (c :: cs) category taken := by
  refine ⟨hlexeme, hstarts, ⟨category, hlexeme⟩, ?_⟩
  rintro other hother ⟨category', hcategory'⟩
  obtain ⟨d, ds, rfl⟩ := List.exists_cons_of_ne_nil hcategory'.ne_nil
  obtain ⟨rfl, -⟩ := List.cons_prefix_cons.1 hother
  exact hlongest category' ds hother hcategory'

/-- The piece is the longest lexeme at the front of the text, or its first character if there is no
lexeme. -/
def Piece.IsLongestIn (cs : List Char) : Piece → Prop
  | lexeme category chars => IsLongestLexeme cs category chars
  | stray c => cs.head? = some c ∧ ∀ category chars, chars <+: cs → ¬IsLexeme category chars
  | unclosed _ => False

theorem isLongestIn_munchWord {c : Char} {cs : List Char} (hdigit : c.isDigit = false)
    (hword : isWordChar c = true) : (munchWord (c :: cs)).1.IsLongestIn (c :: cs) := by
  have htaken : (c :: cs).takeWhile isWordChar <+: c :: cs := List.takeWhile_prefix _
  refine .of_head ?_ htaken fun category ds hds hlexeme => ?_
  · rw [List.takeWhile_cons_of_pos hword]
    refine .word (isAlpha_or_of_isWordChar hword hdigit) ?_ (Category.classifies_iff.2 rfl)
    exact fun d hd => List.all_eq_true.1 List.all_takeWhile d hd
  · rcases hlexeme.head_cases with ⟨hd, -⟩ | ⟨-, -, hall, -⟩ | ⟨hd, -⟩
    · simp [hdigit] at hd
    · exact length_le_takeWhile hds hall
    · simp [hword] at hd

/-- In front of a point there are as many digits as there can be. -/
theorem span_of_real_prefix {whole fraction cs : List Char}
    (hwhole : ∀ c ∈ whole, c.isDigit = true) (hstarts : whole ++ '.' :: fraction <+: cs) :
    cs.takeWhile Char.isDigit = whole ∧
      ∃ rest, cs.dropWhile Char.isDigit = '.' :: (fraction ++ rest) := by
  obtain ⟨rest, rfl⟩ := hstarts
  rw [List.append_assoc]
  have hpoint : ('.' :: fraction ++ rest).head?.any Char.isDigit = false := rfl
  obtain ⟨htake, hdrop⟩ := span_of_head? hwhole hpoint
  exact ⟨htake, rest, hdrop⟩

theorem isLongestIn_munchNumber {c : Char} {cs : List Char} (hdigit : c.isDigit = true) :
    (munchNumber (c :: cs)).1.IsLongestIn (c :: cs) := by
  have hwhole : ∀ d ∈ (c :: cs).takeWhile Char.isDigit, d.isDigit = true :=
    fun d hd => List.all_eq_true.1 List.all_takeWhile d hd
  have hne : (c :: cs).takeWhile Char.isDigit ≠ [] := by simp [hdigit]
  have hword := isWordChar_of_isDigit hdigit
  unfold munchNumber
  split
  · next fraction hfraction =>
      refine .of_head (.real hne hwhole ?_) ?_ fun category ds hds hlexeme => ?_
      · exact fun d hd => List.all_eq_true.1 List.all_takeWhile d hd
      · have hsplit := List.takeWhile_append_dropWhile (p := Char.isDigit) (l := c :: cs)
        rw [hfraction] at hsplit
        refine ⟨fraction.dropWhile Char.isDigit, ?_⟩
        rw [List.append_assoc, List.cons_append, List.takeWhile_append_dropWhile, hsplit]
      · rw [List.length_append]
        rcases hlexeme.head_cases with
          ⟨-, ⟨-, hall⟩ | ⟨-, whole, digits, hchars, hdigits, hall⟩⟩ | ⟨hd, -⟩ | ⟨hd, -⟩
        · have hle := length_le_takeWhile hds hall
          omega
        · rw [hchars] at hds
          obtain ⟨htake, rest, hdrop⟩ := span_of_real_prefix hdigits hds
          obtain rfl : fraction = digits ++ rest := by simpa [hfraction] using hdrop
          have hle := length_le_takeWhile (List.prefix_append digits rest) hall
          rw [hchars, htake, List.length_append, List.length_cons, List.length_cons]
          omega
        · simp [hdigit] at hd
        · simp [hword] at hd
  · next hpoint =>
      have htaken : (c :: cs).takeWhile Char.isDigit <+: c :: cs := List.takeWhile_prefix _
      refine .of_head (.integer hne hwhole) htaken fun category ds hds hlexeme => ?_
      rcases hlexeme.head_cases with
        ⟨-, ⟨-, hall⟩ | ⟨-, whole, digits, hchars, hdigits, -⟩⟩ | ⟨hd, -⟩ | ⟨hd, -⟩
      · exact length_le_takeWhile hds hall
      · -- the digits are not followed by a point
        rw [hchars] at hds
        obtain ⟨-, rest, hdrop⟩ := span_of_real_prefix hdigits hds
        exact absurd hdrop (hpoint _)
      · simp [hdigit] at hd
      · simp [hword] at hd

/-- The fixed lexemes that come first are as long as the others. -/
theorem isLongestIn_fixedLexeme? {c : Char} {cs chars : List Char} {category : Category}
    (hword : isWordChar c = false) (h : fixedLexeme? (c :: cs) = some (chars, category)) :
    IsLongestLexeme (c :: cs) category chars := by
  have hsorted : fixedLexemes.Pairwise fun a b => b.1.length ≤ a.1.length := by decide
  obtain ⟨hfound, before, behind, hsplit, hbefore⟩ := List.find?_eq_some_iff_append.1 h
  have hstarts : chars <+: c :: cs := List.isPrefixOf_iff_prefix.1 hfound
  have hmem : (chars, category) ∈ fixedLexemes := List.mem_of_find?_eq_some h
  refine .of_head (.of_mem_fixedLexemes hmem) hstarts
    fun category' ds hds hlexeme => ?_
  rcases hlexeme.head_cases with ⟨hd, -⟩ | ⟨-, hd, -⟩ | ⟨-, hother⟩
  · simp [isWordChar_of_isDigit hd] at hword
  · simp [hword] at hd
  · rw [hsplit] at hother hsorted
    rcases List.mem_append.1 hother with hother | hother
    · have hno := hbefore _ hother
      have hfound : (c :: ds).isPrefixOf (c :: cs) = true := List.isPrefixOf_iff_prefix.2 hds
      simp [hfound] at hno
    · rcases List.mem_cons.1 hother with hsame | hother
      · exact Nat.le_of_eq (congrArg List.length (Prod.mk.inj hsame).1)
      · exact List.rel_of_pairwise_cons (List.pairwise_append.1 hsorted).2.1 hother

/-- No fixed lexeme, no lexeme. -/
theorem not_isLexeme_of_fixedLexeme? {c : Char} {cs chars : List Char} {category : Category}
    (hword : isWordChar c = false) (h : fixedLexeme? (c :: cs) = none)
    (hstarts : chars <+: c :: cs) : ¬IsLexeme category chars := by
  intro hlexeme
  obtain ⟨d, ds, rfl⟩ := List.exists_cons_of_ne_nil hlexeme.ne_nil
  obtain ⟨rfl, -⟩ := List.cons_prefix_cons.1 hstarts
  rcases hlexeme.head_cases with ⟨hd, -⟩ | ⟨-, hd, -⟩ | ⟨-, hfixed⟩
  · simp [isWordChar_of_isDigit hd] at hword
  · simp [hword] at hd
  · have hno := List.find?_eq_none.1 h _ hfixed
    have hfound : (d :: ds).isPrefixOf (d :: cs) = true := List.isPrefixOf_iff_prefix.2 hstarts
    simp [hfound] at hno

/-- What is taken off in front of anything but a quote is the longest lexeme, or there is none. -/
theorem isLongestIn_munch {c : Char} {cs : List Char} (hquote : isQuote c = false) :
    (munch c cs).1.IsLongestIn (c :: cs) := by
  unfold munch
  split
  · next hdigit => exact isLongestIn_munchNumber hdigit
  · next hdigit =>
      split
      · next hword => exact isLongestIn_munchWord (by simpa using hdigit) hword
      · next hword =>
          rw [if_neg (by simp [hquote])]
          split
          · next hfixed => exact isLongestIn_fixedLexeme? (by simpa using hword) hfixed
          · next hfixed =>
              exact ⟨rfl, fun _ _ => not_isLexeme_of_fixedLexeme? (by simpa using hword) hfixed⟩

/-! ### Answers -/

/-- What is to be answered to a text that begins with neither a blank nor a comment. -/
inductive Answers : List Char → Reading → Prop
  | finished (line column : Nat) : Answers [] (.finished (Token.endOfFile line column))
  | quoted {quote close : Char} {body rest : List Char} {t : Token} (hopen : isQuote quote = true)
      (hclose : isQuote close = true) (hbody : ∀ c ∈ body, isQuote c = false ∧ c ≠ '\n')
      (hcategory : t.category = .string)
      (hlexeme : t.lexeme = String.ofList (quote :: body ++ [close])) :
      Answers (quote :: (body ++ close :: rest)) (.token t)
  | unclosed {quote : Char} {cs : List Char} {fault : Fault} (hopen : isQuote quote = true)
      (hunclosed : ∀ body close rest, cs = body ++ close :: rest → isQuote close = true →
        '\n' ∈ body)
      (hkind : fault.kind = .stringNotClosed) : Answers (quote :: cs) (.refused fault)
  | lexeme {c : Char} {cs : List Char} {t : Token} (hquote : isQuote c = false)
      (hlexeme : IsLongestLexeme (c :: cs) t.category t.lexeme.toList) :
      Answers (c :: cs) (.token t)
  | stray {c : Char} {cs : List Char} {fault : Fault} (hquote : isQuote c = false)
      (hnone : ∀ category chars, chars <+: c :: cs → ¬IsLexeme category chars)
      (hkind : fault.kind = .unknownCharacter) (hlexeme : fault.lexeme = some c.toString) :
      Answers (c :: cs) (.refused fault)

theorem staysQuoted_iff {c : Char} : staysQuoted c = true ↔ isQuote c = false ∧ c ≠ '\n' := by
  simp [staysQuoted]

/-- In front of a quote that no line feed precedes, a string ends with a quote. -/
theorem exists_dropWhile_staysQuoted {body : List Char} (rest : List Char) {close : Char}
    (hclose : isQuote close = true) (hbody : '\n' ∉ body) :
    ∃ d ds, (body ++ close :: rest).dropWhile staysQuoted = d :: ds ∧ isQuote d = true := by
  induction body with
  | nil =>
      have hstays : staysQuoted close = false := by simp [staysQuoted, hclose]
      exact ⟨close, rest, by simp [hstays], hclose⟩
  | cons c body ih =>
      simp only [List.mem_cons, not_or] at hbody
      obtain ⟨hc, hothers⟩ := hbody
      rw [List.cons_append]
      cases hstays : staysQuoted c with
      | true =>
          rw [List.dropWhile_cons_of_pos hstays]
          exact ih hothers
      | false =>
          have hquote : isQuote c = true := by
            simpa [staysQuoted, Ne.symm hc] using hstays
          exact ⟨c, body ++ close :: rest, by simp [hstays], hquote⟩

theorem answers_munchQuoted {c : Char} (hc : isQuote c = true) (cs : List Char) (l : Location) :
    Answers (c :: cs) ((munchQuoted c cs).1.reading l) := by
  have hunclosed (hend : ∀ d ds, cs.dropWhile staysQuoted = d :: ds → isQuote d = false) :
      ∀ body close rest, cs = body ++ close :: rest → isQuote close = true → '\n' ∈ body := by
    rintro body close rest rfl hclose
    refine Decidable.byContradiction fun hbody => ?_
    obtain ⟨d, ds, hdrop, hd⟩ := exists_dropWhile_staysQuoted rest hclose hbody
    simp [hend d ds hdrop] at hd
  unfold munchQuoted
  split
  · next hend =>
      refine .unclosed hc (hunclosed fun d ds hds => ?_) rfl
      simp [hend] at hds
  · next d ds hds =>
      split
      · next hd =>
          have hbody : ∀ d ∈ cs.takeWhile staysQuoted, isQuote d = false ∧ d ≠ '\n' :=
            fun d hd => staysQuoted_iff.1 (List.all_eq_true.1 List.all_takeWhile d hd)
          have hquoted : Answers (c :: (cs.takeWhile staysQuoted ++ d :: ds))
              ((Piece.lexeme .string (c :: cs.takeWhile staysQuoted ++ [d])).reading l) :=
            .quoted hc hd hbody rfl rfl
          rwa [← hds, List.takeWhile_append_dropWhile] at hquoted
      · next hd =>
          refine .unclosed hc (hunclosed fun d' ds' hds' => ?_) rfl
          obtain ⟨rfl, -⟩ := List.cons.inj (hds.symm.trans hds')
          simpa using hd

theorem answers_munch (c : Char) (cs : List Char) (l : Location) :
    Answers (c :: cs) ((munch c cs).1.reading l) := by
  cases hquote : isQuote c with
  | true =>
      have hdigit : c.isDigit = false ∧ isWordChar c = false := by
        simp only [isQuote, Bool.or_eq_true, beq_iff_eq] at hquote
        rcases hquote with rfl | rfl <;> decide
      have hmunch : munch c cs = munchQuoted c cs := by
        simp [munch, hdigit.1, hdigit.2, hquote]
      rw [hmunch]
      exact answers_munchQuoted hquote cs l
  | false =>
      have hlongest : (munch c cs).1.IsLongestIn (c :: cs) := isLongestIn_munch hquote
      cases hpiece : (munch c cs).1 with
      | lexeme category chars =>
          rw [hpiece] at hlongest
          refine .lexeme hquote ?_
          rw [String.toList_ofList]
          exact hlongest
      | stray d =>
          rw [hpiece] at hlongest
          obtain ⟨hhead, hnone⟩ := hlongest
          obtain rfl : c = d := by simpa using hhead
          exact .stray hquote hnone rfl rfl
      | unclosed chars =>
          rw [hpiece] at hlongest
          exact hlongest.elim

/-- In front of anything but a quote, the answer is a refusal just if there is no lexeme. -/
theorem Answers.refused_iff {c : Char} {cs : List Char} {reading : Reading}
    (h : Answers (c :: cs) reading) (hquote : isQuote c = false) :
    (∃ fault, reading = .refused fault) ↔
      ∀ category chars, chars <+: c :: cs → ¬IsLexeme category chars := by
  cases h with
  | quoted hopen _ _ _ _ | unclosed hopen _ _ => simp [hquote] at hopen
  | @lexeme _ _ t _ hlexeme =>
      constructor
      · rintro ⟨fault, hfault⟩
        exact Reading.noConfusion hfault
      · intro hnone
        exact absurd hlexeme.isLexeme (hnone _ _ hlexeme.isLongest.starts)
  | stray _ hnone _ _ => exact ⟨fun _ => hnone, fun _ => ⟨_, rfl⟩⟩

/-- **Maximal munch.**  From every place a reading skips the longest gap, and answers to the rest:
the end of the text; a quoted string through the first quote, unless a line feed comes before it; or
else the longest prefix that is a lexeme, in its category.  A character that is no quote is refused
exactly if no prefix from there on is a lexeme. -/
theorem next_answers_longest (cursor : Cursor) :
    ∃ gap rest, cursor.rest = gap ++ rest ∧ IsLongestPrefix IsLastGap cursor.rest gap ∧
      Answers rest cursor.next.1 ∧
      ∀ c cs, rest = c :: cs → isQuote c = false →
        ((∃ fault, cursor.next.1 = .refused fault) ↔
          ∀ category chars, chars <+: rest → ¬IsLexeme category chars) := by
  obtain ⟨gap, hsplit, hlongest⟩ := cursor.exists_longestGap
  have hanswers : Answers cursor.skipBlanks.rest cursor.next.1 := by
    cases hrest : cursor.skipBlanks.rest with
    | nil =>
        rw [Cursor.next_of_rest_nil hrest]
        exact .finished _ _
    | cons c cs =>
        rw [Cursor.next_of_rest_cons hrest]
        exact answers_munch c cs _
  refine ⟨gap, _, hsplit, hlongest, hanswers, fun c cs hrest hquote => ?_⟩
  rw [hrest] at hanswers ⊢
  exact hanswers.refused_iff hquote

end MiniPascal
