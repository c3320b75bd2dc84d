import MiniPascal.Proofs.LexemeScanning
import MiniPascal.Proofs.LexemeSpelling

/-!
# Reading lexemes back

A lexeme of the shape that its category demands is scanned to a token of that category
when it stands alone.  So the category is decided by the lexeme: two terminals that are
spelled alike are the same.
-/

namespace MiniPascal

/-- Characters are scanned to one sequence of terminals. -/
theorem Scans.unique {cs : List Char} {ts us : List Terminal} (h : Scans cs ts)
    (h' : Scans cs us) : ts = us := by
  obtain ⟨tokens, hscan, rfl⟩ := h Location.start
  obtain ⟨tokens', hscan', rfl⟩ := h' Location.start
  rw [hscan] at hscan'
  rw [(Prod.mk.inj hscan').1]

namespace Terminal

/-- A word is scanned to the category that it is classified as. -/
theorem scans_word {category : Category} {lexeme : String} (hword : isWord lexeme = true)
    (hcategory : Category.ofWord lexeme = category) :
    Scans lexeme.toList [⟨category, lexeme⟩] := by
  have hboundary : ([] : List Char).head?.any isWordChar = false := rfl
  have hscans := Scans.nil.word hword hboundary
  rwa [List.append_nil, hcategory] at hscans

theorem scans_number {kind : NumberKind} {numeral : String} (h : kind.admits numeral = true) :
    Scans numeral.toList [.number kind numeral] := by
  have hboundary : isBoundary [] = true := rfl
  have hscans := Scans.nil.number h hboundary
  rwa [List.append_nil] at hscans

theorem scans_quotedText {text : String} (h : isQuotedText text = true) :
    Scans text.toList [⟨.string, text⟩] := by
  unfold isQuotedText at h
  split at h
  · simp at h
  next c cs hcs =>
  simp only [Bool.and_eq_true] at h
  obtain ⟨⟨hquote, hlast⟩, hbody⟩ := h
  obtain ⟨d, hd, hclosing⟩ := (Option.any_eq_true ..).1 hlast
  obtain ⟨body, rfl⟩ := List.getLast?_eq_some_iff.1 hd
  rw [List.dropLast_concat, List.all_eq_true] at hbody
  have hplain : isBlank c = false ∧ c ≠ '/' := by
    simp only [isQuote, Bool.or_eq_true, beq_iff_eq] at hquote
    rcases hquote with rfl | rfl <;> decide
  have hlexeme : text = String.ofList (c :: body ++ [d]) := by
    rw [List.cons_append, ← hcs, String.ofList_toList]
  have hscans := Scans.nil.lexeme hplain.1 (by simp [hplain.2])
    (.string hquote hbody hclosing)
  rwa [← hlexeme, ← hcs] at hscans

/-- A fixed lexeme is the longest one that it begins with. -/
theorem scans_fixedLexeme {category : Category} {lexeme : String}
    (h : (lexeme.toList, category) ∈ fixedLexemes) : Scans lexeme.toList [⟨category, lexeme⟩] := by
  have hfixed : ∀ entry ∈ fixedLexemes, entry.1.head?.any (fun c => !isBlank c &&
      !(c == '/' && entry.1.tail.head? == some '/') &&
      munch c entry.1.tail = (.lexeme entry.2 entry.1, [])) = true := by decide
  have hlexeme : lexeme = String.ofList lexeme.toList := String.ofList_toList.symm
  rw [hlexeme]
  generalize lexeme.toList = chars at h ⊢
  obtain ⟨c, hc, hentry⟩ := (Option.any_eq_true ..).1 (hfixed _ h)
  obtain ⟨cs, rfl⟩ := List.head?_eq_some_iff.1 hc
  simp only [Bool.and_eq_true, Bool.not_eq_true', decide_eq_true_eq] at hentry
  obtain ⟨⟨hblank, hcomment⟩, hmunch⟩ := hentry
  rw [String.toList_ofList]
  exact Scans.nil.lexeme hblank hcomment hmunch

/-- What has the shape of its category is scanned to that category where it stands alone. -/
theorem scans_of_isSpelled {t : Terminal} (h : t.isSpelled = true) : Scans t.lexeme.toList [t] := by
  obtain ⟨category, lexeme⟩ := t
  have hwords : ∀ w ∈ reservedWords, isWord w = true ∧ Category.ofWord w = .reservedWord := by
    decide
  have htypes : ∀ w ∈ reservedTypes, isWord w = true ∧ Category.ofWord w = .reservedType := by
    decide
  have hoperators : ∀ w ∈ reservedOperators,
      isWord w = true ∧ Category.ofWord w = .reservedOperator := by decide
  cases category with
  | reservedWord =>
      obtain ⟨hword, hcategory⟩ := hwords lexeme (of_decide_eq_true h)
      exact scans_word hword hcategory
  | reservedType =>
      obtain ⟨hword, hcategory⟩ := htypes lexeme (of_decide_eq_true h)
      exact scans_word hword hcategory
  | reservedOperator =>
      obtain ⟨hword, hcategory⟩ := hoperators lexeme (of_decide_eq_true h)
      exact scans_word hword hcategory
  | identifier =>
      obtain ⟨hword, hcategory⟩ := Bool.and_eq_true_iff.1 h
      exact scans_word hword (eq_of_beq hcategory)
  | integerNumber =>
      have hnumeral : NumberKind.integer.admits lexeme = true := h
      exact scans_number hnumeral
  | realNumber =>
      have hnumeral : NumberKind.real.admits lexeme = true := h
      exact scans_number hnumeral
  | string => exact scans_quotedText h
  | _ => exact scans_fixedLexeme (of_decide_eq_true h)

/-- **The lexeme decides the category.** -/
theorem eq_of_lexeme_eq {t u : Terminal} (ht : t.isSpelled = true) (hu : u.isSpelled = true)
    (h : t.lexeme = u.lexeme) : t = u := by
  have hscans := scans_of_isSpelled ht
  rw [h] at hscans
  exact List.singleton_inj.1 (hscans.unique (scans_of_isSpelled hu))

end Terminal

end MiniPascal
