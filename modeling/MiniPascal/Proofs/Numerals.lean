import MiniPascal.Proofs.ParsedShape
import MiniPascal.Proofs.RegistryHistories

/-!
# Numerals and scanned numbers

The check of a numeral counts its points; the scanner takes digits first, and a point only behind
them.  They part where a text begins with a point: the check lets it pass, and the scanner takes
the point as a symbol.
-/

namespace MiniPascal

/-! ### Numerals of a kind -/

theorem isNumeral_iff {text : String} :
    isNumeral text = true ↔ text.toList ≠ [] ∧
      (∀ c ∈ text.toList, c.isDigit = true ∨ c = '.') ∧ text.toList.count '.' ≤ 1 := by
  simp [isNumeral, and_assoc]

theorem NumberKind.head?_ne_point_of_admits {kind : NumberKind} {text : String}
    (h : kind.admits text = true) : text.toList.head? ≠ some '.' := by
  have hpoint : Char.isDigit '.' = false := rfl
  intro hhead
  cases kind with
  | integer =>
      have hdigit := (isIntegerNumeral_iff.1 h).2 '.' (List.mem_of_mem_head? hhead)
      simp [hpoint] at hdigit
  | real =>
      have hdigit := (Bool.and_eq_true_iff.1 h).1
      simp [hhead, hpoint] at hdigit

/-- A numeral without a point in front is one of an integer or of a real number. -/
theorem exists_admits_of_isNumeral {text : String} (h : isNumeral text = true)
    (hhead : text.toList.head? ≠ some '.') : ∃ kind : NumberKind, kind.admits text = true := by
  obtain ⟨hne, hall, hcount⟩ := isNumeral_iff.1 h
  by_cases hpoint : '.' ∈ text.toList
  · -- the digits on both sides of the one point
    obtain ⟨whole, fraction, htext⟩ := List.append_of_mem hpoint
    rw [htext] at hhead hall hcount
    have hnone : '.' ∉ whole ∧ '.' ∉ fraction := by
      simp only [List.count_append, List.count_cons_self] at hcount
      exact ⟨List.count_eq_zero.1 (by omega), List.count_eq_zero.1 (by omega)⟩
    refine ⟨.real, isRealNumeral_iff.2 ⟨whole, fraction, htext, ?_, ?_, ?_⟩⟩
    · rintro rfl
      exact hhead rfl
    · intro c hc
      exact (hall c (by simp [hc])).resolve_right fun heq => hnone.1 (heq ▸ hc)
    · intro c hc
      exact (hall c (by simp [hc])).resolve_right fun heq => hnone.2 (heq ▸ hc)
  · refine ⟨.integer, isIntegerNumeral_iff.2 ⟨hne, fun c hc => ?_⟩⟩
    exact (hall c hc).resolve_right fun heq => hpoint (heq ▸ hc)

/-! ### Scanned numbers -/

/-- The text is scanned to one token, which is a number and spelled as the text. -/
def IsScannedNumber (text : String) : Prop :=
  ∃ r t, tokenize text = .ok r ∧ r.toList = [t] ∧ t.kind = .number ∧ t.lexeme = text

theorem isSpelled_number (kind : NumberKind) (numeral : String) :
    (Terminal.number kind numeral).isSpelled = kind.admits numeral := by
  cases kind <;> rfl

theorem isScannedNumber_iff {text : String} :
    IsScannedNumber text ↔ ∃ kind : NumberKind, kind.admits text = true := by
  constructor
  · rintro ⟨r, t, htokenize, hlist, hkind, rfl⟩
    obtain ⟨ts, hscan, rfl⟩ := tokenize_eq_ok_iff.1 htokenize
    rw [Registry.toList_ofList] at hlist
    have hspelled : t.terminal.isSpelled = true := isSpelled_of_scanText hscan t (by simp [hlist])
    rw [Token.terminal_of_kind_number hkind, isSpelled_number] at hspelled
    exact ⟨_, hspelled⟩
  · rintro ⟨kind, hadmits⟩
    obtain ⟨t, hscan, hterminal⟩ := scansTo_number hadmits
    refine ⟨_, t, tokenize_eq_ok_iff.2 ⟨[t], hscan, rfl⟩, Registry.toList_ofList [t], ?_, ?_⟩
    · rw [Token.kind_eq, hterminal]
      cases kind <;> rfl
    · have hlexeme : t.lexeme = t.terminal.lexeme := rfl
      rw [hlexeme, hterminal]
      cases kind <;> rfl

/-- **The check of a numeral and the scanner.**  They agree on every text that does not begin with a
point; none that does is scanned to a number. -/
theorem isScannedNumber_iff_isNumeral (text : String) :
    IsScannedNumber text ↔ isNumeral text = true ∧ text.toList.head? ≠ some '.' := by
  rw [isScannedNumber_iff]
  constructor
  · rintro ⟨kind, hadmits⟩
    exact ⟨isNumeral_of_admits hadmits, kind.head?_ne_point_of_admits hadmits⟩
  · rintro ⟨hnumeral, hhead⟩
    exact exists_admits_of_isNumeral hnumeral hhead

/-- A fraction without digits in front of its point passes the check, and so does a point alone, but
neither is scanned to a number. -/
theorem isNumeral_point_not_scanned :
    (isNumeral ".5" = true ∧ ¬ IsScannedNumber ".5") ∧
      isNumeral "." = true ∧ ¬ IsScannedNumber "." := by
  have hpoint : ∀ text : String, text.toList.head? = some '.' → ¬ IsScannedNumber text := by
    intro text hhead hscanned
    obtain ⟨kind, hadmits⟩ := isScannedNumber_iff.1 hscanned
    exact kind.head?_ne_point_of_admits hadmits hhead
  exact ⟨⟨by decide, hpoint _ (by decide)⟩, by decide, hpoint _ (by decide)⟩

end MiniPascal
