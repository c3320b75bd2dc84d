import Mathlib.Data.List.Basic
import MiniPascal.Proofs.FaultPlaces
import MiniPascal.Proofs.PrintedLines
import MiniPascal.Proofs.RegistryHistories

/-!
# Token listings

A listing has one line for each token, and the lexeme stands in it as it is, whatever it
holds.  So a line is read from both sides.  Up to its second comma stands the class of the
token, behind the last comma the column, and before that, behind the last angle bracket,
the number of the line; what is left in between is the lexeme.
-/

namespace MiniPascal

/-- The label decides the category. -/
theorem Category.label_injective : Function.Injective label := by
  intro c d h
  cases c <;> cases d <;> simp_all [label]

theorem Category.notMem_label (c : Category) : ',' ∉ c.label.toList ∧ '\n' ∉ c.label.toList := by
  cases c <;> decide

namespace Token

/-- A listing line, cut at the commas and the angle bracket that do not belong to the lexeme. -/
theorem toList_listingLine (t : Token) :
    t.listingLine.toList =
      '<' :: Nat.toDigits 10 t.kind.ordinal ++ ',' :: (' ' :: t.category.label.toList ++
        ',' :: (([' ', '\''] ++ t.lexeme.toList ++ ['\'', '>', ' ', ':', ' '] ++
          '<' :: Nat.toDigits 10 t.line) ++ ',' :: (' ' :: Nat.toDigits 10 t.column ++ ['>']))) := by
  simp [listingLine, label, Nat.toString_eq_repr]

/-- **A listing line is read back**, whatever stands in the lexeme. -/
theorem listingLine_injective : Function.Injective listingLine := by
  intro t u h
  have hchars := congrArg String.toList h
  rw [toList_listingLine, toList_listingLine] at hchars
  have hcomma (n : Nat) : ',' ∉ Nat.toDigits 10 n := notMem_toDigits rfl n
  have hangle (n : Nat) : '<' ∉ Nat.toDigits 10 n := notMem_toDigits rfl n
  -- the number and the label of the class have no commas
  obtain ⟨-, hchars⟩ := append_cons_inj_of_first (by simp [hcomma]) (by simp [hcomma]) hchars
  obtain ⟨hlabel, hchars⟩ := append_cons_inj_of_first (by simp [Category.notMem_label])
    (by simp [Category.notMem_label]) hchars
  -- the lexeme may have some, so the place is read from the right
  obtain ⟨hchars, hcolumn⟩ := append_cons_inj_of_last (by simp [hcomma]) (by simp [hcomma]) hchars
  obtain ⟨hlexeme, hline⟩ := append_cons_inj_of_last (hangle _) (hangle _) hchars
  have hcategory : t.category = u.category :=
    Category.label_injective (String.toList_inj.1 (List.tail_eq_of_cons_eq hlabel))
  have hlexeme' : t.lexeme = u.lexeme := String.toList_inj.1 (by simpa using hlexeme)
  have hline' : t.line = u.line := toDigits_injective hline
  have hcolumn' : t.column = u.column := toDigits_injective (by simpa using hcolumn)
  calc
    t = ⟨t.category, t.lexeme, t.line, t.column⟩ := rfl
    _ = u := by rw [hcategory, hlexeme', hline', hcolumn']

/-- Without a line feed in its lexeme a token is listed on one line. -/
theorem notMem_listingLine {t : Token} (h : '\n' ∉ t.lexeme.toList) :
    '\n' ∉ t.listingLine.toList := by
  have hdigits (n : Nat) : '\n' ∉ Nat.toDigits 10 n := notMem_toDigits rfl n
  rw [toList_listingLine]
  simp [h, hdigits, Category.notMem_label]

end Token

namespace Registry

theorem listing_eq_closeLines (r : Registry) :
    r.listing = closeLines (r.toList.map Token.listingLine) := by
  simp [listing, closeLines, Function.comp_def]

/-- The tokens of a text are listed on one line each. -/
theorem notMem_listingLine_of_tokenize {text : String} {r : Registry} (h : tokenize text = .ok r) :
    ∀ line ∈ r.toList.map Token.listingLine, '\n' ∉ line.toList := by
  obtain ⟨ts, hscan, rfl⟩ := tokenize_eq_ok_iff.1 h
  rw [toList_ofList, List.forall_mem_map]
  intro t ht
  exact Token.notMem_listingLine (Terminal.staysOnLine (isSpelled_of_scanText hscan t ht)).1

/-- **A listing loses nothing.**  Two texts that can be scanned are listed alike exactly if they
have the same tokens at the same places in the same order, and every token takes one line of the
listing. -/
theorem tokenize_listing_eq_iff {text text' : String} {r r' : Registry}
    (h : tokenize text = .ok r) (h' : tokenize text' = .ok r') :
    (r.listing = r'.listing ↔ r.toList = r'.toList) ∧
      r.listing.toList.count '\n' = r.size := by
  have hlines := notMem_listingLine_of_tokenize h
  have hlines' := notMem_listingLine_of_tokenize h'
  rw [listing_eq_closeLines, listing_eq_closeLines]
  refine ⟨⟨fun hlisting => ?_, fun htokens => by rw [htokens]⟩, ?_⟩
  · exact Token.listingLine_injective.list_map (closeLines_inj hlines hlines' hlisting)
  · rw [count_closeLines hlines, List.length_map]
    rfl

/-- A string that goes on like the end of the line of an empty one. -/
theorem tokenize_listing_eq_iff_string :
    let r : Registry := ofList [⟨.string, "'> : <1, 2>'", 1, 12⟩]
    let r' : Registry := ofList [⟨.string, "''", 1, 2⟩]
    tokenize "'> : <1, 2>'" = .ok r ∧ tokenize "'' // '" = .ok r' ∧
      r.listing = "<7, String, ''> : <1, 2>''> : <1, 12>\n" ∧
      (r.listing = r'.listing ↔ r.toList = r'.toList) ∧
      r.listing.toList.count '\n' = r.size := by
  intro r r'
  have htext : tokenize "'> : <1, 2>'" = .ok r := tokenize_eq_ok_iff.2 ⟨_, by decide +kernel, rfl⟩
  have htext' : tokenize "'' // '" = .ok r' := tokenize_eq_ok_iff.2 ⟨_, by decide +kernel, rfl⟩
  have hlisting : r.listing = "<7, String, ''> : <1, 2>''> : <1, 12>\n" := by
    rw [listing, toList_ofList]
    decide +kernel
  exact ⟨htext, htext', hlisting, tokenize_listing_eq_iff htext htext'⟩

end Registry

end MiniPascal
