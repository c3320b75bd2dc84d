import Mathlib.Data.List.Basic

/-!
# Printed lines

What is printed line by line is read back line by line: a line without line feeds goes up
to the first one.  In the same way a text is cut at the first or at the last mark of a
kind, where there is no other mark on that side of it.
-/

namespace MiniPascal

/-! ### Cuts -/

section

variable {α : Type} {mark : α} {xs ys ds es : List α}

/-- A list is cut at its first mark. -/
theorem append_cons_inj_of_first (hxs : mark ∉ xs) (hys : mark ∉ ys)
    (h : xs ++ mark :: ds = ys ++ mark :: es) : xs = ys ∧ ds = es := by
  induction xs generalizing ys with
  | nil =>
      cases ys with
      | nil => exact ⟨rfl, List.tail_eq_of_cons_eq h⟩
      | cons y ys => exact absurd (List.head_eq_of_cons_eq h) (List.ne_of_not_mem_cons hys)
  | cons x xs ih =>
      cases ys with
      | nil => exact absurd (List.head_eq_of_cons_eq h).symm (List.ne_of_not_mem_cons hxs)
      | cons y ys =>
          obtain ⟨rfl, hothers⟩ := List.cons_eq_cons.1 h
          obtain ⟨rfl, rfl⟩ := ih (List.not_mem_of_not_mem_cons hxs)
            (List.not_mem_of_not_mem_cons hys) hothers
          exact ⟨rfl, rfl⟩

/-- A list is cut at its last mark. -/
theorem append_cons_inj_of_last (hds : mark ∉ ds) (hes : mark ∉ es)
    (h : xs ++ mark :: ds = ys ++ mark :: es) : xs = ys ∧ ds = es := by
  have hreverse : ds.reverse ++ mark :: xs.reverse = es.reverse ++ mark :: ys.reverse := by
    simpa using congrArg List.reverse h
  have hcut := append_cons_inj_of_first (by simpa) (by simpa) hreverse
  exact ⟨List.reverse_injective hcut.2, List.reverse_injective hcut.1⟩

end

/-! ### Numbers -/

theorem notMem_toDigits {c : Char} (hc : c.isDigit = false) (n : Nat) : c ∉ Nat.toDigits 10 n := by
  intro hmem
  rw [Nat.isDigit_of_mem_toDigits (by decide) (by decide) hmem] at hc
  exact Bool.noConfusion hc

theorem toDigits_injective : Function.Injective (Nat.toDigits 10) :=
  Function.LeftInverse.injective fun _ => Nat.ofDigitChars_ten_toDigits

/-! ### Lines -/

/-- Lines one after the other, each closed by a line feed. -/
def closeLines (lines : List String) : String :=
  String.join (lines.map (· ++ "\n"))

@[simp]
theorem closeLines_nil : closeLines [] = "" := by
  simp [closeLines]

@[simp]
theorem closeLines_cons (line : String) (lines : List String) :
    closeLines (line :: lines) = line ++ "\n" ++ closeLines lines := by
  simp [closeLines]

@[simp]
theorem closeLines_append (ls ms : List String) :
    closeLines (ls ++ ms) = closeLines ls ++ closeLines ms := by
  simp [closeLines]

/-- Lines without line feeds are told apart. -/
theorem closeLines_inj {ls ms : List String} (hls : ∀ l ∈ ls, '\n' ∉ l.toList)
    (hms : ∀ m ∈ ms, '\n' ∉ m.toList) (h : closeLines ls = closeLines ms) : ls = ms := by
  induction ls generalizing ms with
  | nil =>
      cases ms with
      | nil => rfl
      | cons m ms => simpa using congrArg String.toList h
  | cons l ls ih =>
      cases ms with
      | nil => simpa using congrArg String.toList h
      | cons m ms =>
          obtain ⟨hl, hls⟩ := List.forall_mem_cons.1 hls
          obtain ⟨hm, hms⟩ := List.forall_mem_cons.1 hms
          have hchars : l.toList ++ '\n' :: (closeLines ls).toList =
              m.toList ++ '\n' :: (closeLines ms).toList := by
            simpa using congrArg String.toList h
          obtain ⟨hline, hothers⟩ := append_cons_inj_of_first hl hm hchars
          rw [String.toList_inj.1 hline, ih hls hms (String.toList_inj.1 hothers)]

/-- There are as many line feeds as lines. -/
theorem count_closeLines {ls : List String} (hls : ∀ l ∈ ls, '\n' ∉ l.toList) :
    (closeLines ls).toList.count '\n' = ls.length := by
  induction ls with
  | nil => simp
  | cons l ls ih =>
      obtain ⟨hl, hls⟩ := List.forall_mem_cons.1 hls
      simp [List.count_eq_zero.2 hl, ih hls]

end MiniPascal
