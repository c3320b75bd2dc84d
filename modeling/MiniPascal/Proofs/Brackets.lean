import Mathlib.Data.List.Basic

/-!
# Brackets

Brackets in a list are matched by counting how many of them are open.  A part of a
list is balanced if it closes what it opens and nothing else.  Balanced parts never
overlap: a pair of brackets in a list lies on one side of every cut between two of
them (`IsPair.of_append`), and in a list with brackets around it it is the outer
pair or lies inside (`IsPair.of_enclosed`).
-/

namespace MiniPascal

section

variable {α : Type} [DecidableEq α] (opening closing : α)

/-- How many brackets are open behind the list, if `depth` are open in front of it.  A bracket that
is not open cannot be closed. -/
def openBehind (depth : Nat) : List α → Option Nat
  | [] => some depth
  | x :: xs =>
      if x = opening then
        openBehind (depth + 1) xs
      else if x = closing then
        match depth with
        | 0 => none
        | depth + 1 => openBehind depth xs
      else
        openBehind depth xs

/-- The list closes the brackets that it opens, and no others. -/
def IsBalanced (xs : List α) : Prop :=
  openBehind opening closing 0 xs = some 0

instance (xs : List α) : Decidable (IsBalanced opening closing xs) :=
  inferInstanceAs (Decidable (_ = _))

/-- The text is `inside` between two brackets that match, with `before` and `behind` around it. -/
def IsPair (text before inside behind : List α) : Prop :=
  text = before ++ opening :: (inside ++ closing :: behind) ∧ IsBalanced opening closing inside

instance (text before inside behind : List α) :
    Decidable (IsPair opening closing text before inside behind) :=
  inferInstanceAs (Decidable (_ ∧ _))

end

/-- Where the last element of a list stands, if the list is cut in front of an element. -/
theorem concat_eq_append_cons {α : Type} {xs ys zs : List α} {x y : α}
    (h : xs ++ [y] = ys ++ x :: zs) :
    (zs = [] ∧ y = x ∧ xs = ys) ∨ ∃ zs', zs = zs' ++ [y] ∧ xs = ys ++ x :: zs' := by
  rcases List.eq_nil_or_concat zs with rfl | ⟨zs, z, rfl⟩
  · obtain ⟨rfl, hlast⟩ := List.append_inj' h rfl
    exact .inl ⟨rfl, (List.cons.inj hlast).1, rfl⟩
  · have hsplit : xs ++ [y] = (ys ++ x :: zs) ++ [z] := by simpa using h
    obtain ⟨rfl, hlast⟩ := List.append_inj' hsplit rfl
    exact .inr ⟨zs, by simp [(List.cons.inj hlast).1], rfl⟩

section

variable {α : Type} [DecidableEq α] {opening closing : α}

theorem openBehind_append (depth : Nat) (xs ys : List α) :
    openBehind opening closing depth (xs ++ ys) =
      (openBehind opening closing depth xs).bind (openBehind opening closing · ys) := by
  induction xs generalizing depth with
  | nil => rfl
  | cons x xs ih =>
      simp only [List.cons_append, openBehind]
      split
      · exact ih _
      · split
        · cases depth with
          | zero => rfl
          | succ depth => exact ih _
        · exact ih _

/-- Brackets that are open in front stay open if the list does without them. -/
theorem openBehind_add {depth n : Nat} {xs : List α}
    (h : openBehind opening closing depth xs = some n) (more : Nat) :
    openBehind opening closing (depth + more) xs = some (n + more) := by
  induction xs generalizing depth with
  | nil =>
      obtain rfl : depth = n := Option.some.inj h
      rfl
  | cons x xs ih =>
      simp only [openBehind] at h ⊢
      split at h
      · next hopening =>
          rw [if_pos hopening, Nat.add_right_comm]
          exact ih h
      · next hopening =>
          rw [if_neg hopening]
          split at h
          · next hclosing =>
              rw [if_pos hclosing]
              cases depth with
              | zero => exact absurd h (by simp)
              | succ depth =>
                  rw [Nat.add_right_comm]
                  exact ih h
          · next hclosing =>
              rw [if_neg hclosing]
              exact ih h

theorem openBehind_cons_of_ne {x : α} (hopening : x ≠ opening) (hclosing : x ≠ closing)
    (depth : Nat) (xs : List α) :
    openBehind opening closing depth (x :: xs) = openBehind opening closing depth xs := by
  simp [openBehind, hopening, hclosing]

theorem openBehind_opening (depth : Nat) (xs : List α) :
    openBehind opening closing depth (opening :: xs) =
      openBehind opening closing (depth + 1) xs := by
  simp [openBehind]

namespace IsBalanced

variable {xs ys : List α}

theorem nil : IsBalanced opening closing ([] : List α) := rfl

/-- A balanced list in front does not matter. -/
theorem openBehind_append (hxs : IsBalanced opening closing xs) (depth : Nat) (ys : List α) :
    openBehind opening closing depth (xs ++ ys) = openBehind opening closing depth ys := by
  have hdepth := openBehind_add hxs depth
  rw [Nat.zero_add] at hdepth
  rw [MiniPascal.openBehind_append, hdepth, Option.bind_some]

theorem append_iff (hxs : IsBalanced opening closing xs) :
    IsBalanced opening closing (xs ++ ys) ↔ IsBalanced opening closing ys := by
  rw [IsBalanced, hxs.openBehind_append 0 ys, IsBalanced]

theorem cons_iff {x : α} (hopening : x ≠ opening) (hclosing : x ≠ closing) :
    IsBalanced opening closing (x :: xs) ↔ IsBalanced opening closing xs := by
  rw [IsBalanced, openBehind_cons_of_ne hopening hclosing, IsBalanced]

/-- A list without brackets is balanced. -/
theorem of_notMem (hopening : opening ∉ xs) (hclosing : closing ∉ xs) :
    IsBalanced opening closing xs := by
  induction xs with
  | nil => exact nil
  | cons x xs ih =>
      obtain ⟨hx, hopening⟩ := not_or.1 (mt List.mem_cons.2 hopening)
      obtain ⟨hx', hclosing⟩ := not_or.1 (mt List.mem_cons.2 hclosing)
      exact (cons_iff (Ne.symm hx) (Ne.symm hx')).2 (ih hopening hclosing)

/-- Matching brackets around a balanced list leave it balanced. -/
theorem enclosed (hne : closing ≠ opening) (hxs : IsBalanced opening closing xs) :
    IsBalanced opening closing (opening :: (xs ++ [closing])) := by
  rw [IsBalanced, openBehind_opening, hxs.openBehind_append]
  simp [openBehind, hne]

/-- A balanced list does not end in the middle of a part that is balanced itself. -/
theorem not_unclosed (before : List α) {zs ws : List α}
    (hinside : IsBalanced opening closing (zs ++ ws)) :
    ¬ IsBalanced opening closing (before ++ opening :: zs) := by
  intro h
  -- the bracket in front of `zs` is still open behind it, since `zs` closes only its own
  rw [IsBalanced, MiniPascal.openBehind_append] at hinside h
  obtain ⟨n, hzs, -⟩ := Option.bind_eq_some_iff.1 hinside
  obtain ⟨m, -, hrest⟩ := Option.bind_eq_some_iff.1 h
  rw [openBehind_opening, ← Nat.zero_add (m + 1), openBehind_add hzs] at hrest
  exact absurd (Option.some.inj hrest) (by omega)

theorem not_append_opening (before : List α) {inside : List α}
    (hinside : IsBalanced opening closing inside) :
    ¬ IsBalanced opening closing (before ++ opening :: inside) := by
  rw [← List.append_nil inside] at hinside
  exact hinside.not_unclosed before

/-- No balanced list goes on behind a balanced part with a closing bracket. -/
theorem not_append_closing (hne : closing ≠ opening) {inside zs : List α}
    (hinside : IsBalanced opening closing inside) :
    ¬ IsBalanced opening closing (inside ++ closing :: zs) := by
  rw [hinside.append_iff, IsBalanced]
  simp [openBehind, hne]

/-- What stands behind a balanced part and no bracket is not enclosed by brackets. -/
theorem append_cons_ne_enclosed {x : α} (hopening : x ≠ opening) (hclosing : x ≠ closing)
    (hxs : IsBalanced opening closing xs) {zs : List α} (hzs : IsBalanced opening closing zs) :
    xs ++ x :: ys ≠ opening :: (zs ++ [closing]) := by
  intro h
  cases xs with
  | nil => exact hopening (List.cons.inj h).1
  | cons x' xs =>
      obtain ⟨rfl, htail⟩ := List.cons.inj h
      obtain ⟨-, hlast, -⟩ | ⟨ys', -, rfl⟩ := concat_eq_append_cons htail.symm
      · exact hclosing hlast.symm
      · exact hzs.not_unclosed [] hxs

end IsBalanced

namespace IsPair

variable {xs ys before inside behind : List α}

/-- A pair of brackets does not reach over the end of a balanced part. -/
theorem of_append (hxs : IsBalanced opening closing xs)
    (h : IsPair opening closing (xs ++ ys) before inside behind) :
    (∃ behind', IsPair opening closing xs before inside behind' ∧ behind = behind' ++ ys) ∨
      ∃ before', IsPair opening closing ys before' inside behind ∧ before = xs ++ before' := by
  obtain ⟨htext, hinside⟩ := h
  rcases List.append_eq_append_iff.1 htext with ⟨zs, rfl, rfl⟩ | ⟨zs, rfl, hzs⟩
  · exact .inr ⟨zs, ⟨rfl, hinside⟩, rfl⟩
  · cases zs with
    | nil => exact .inr ⟨[], ⟨hzs.symm, hinside⟩, by simp⟩
    | cons z zs =>
        obtain ⟨rfl, hrest⟩ := List.cons.inj hzs
        rcases List.append_eq_append_iff.1 hrest with ⟨ws, rfl, hws⟩ | ⟨ws, rfl, -⟩
        · cases ws with
          | nil =>
              rw [List.append_nil] at hxs
              exact absurd hxs (hinside.not_append_opening _)
          | cons w ws =>
              obtain ⟨rfl, rfl⟩ := List.cons.inj hws
              exact .inl ⟨ws, ⟨rfl, hinside⟩, rfl⟩
        · exact absurd hxs (hinside.not_unclosed _)

/-- A pair in an enclosed part is the one around it or lies inside. -/
theorem of_enclosed (hne : closing ≠ opening) (hxs : IsBalanced opening closing xs)
    (h : IsPair opening closing (opening :: (xs ++ [closing])) before inside behind) :
    (before = [] ∧ inside = xs ∧ behind = []) ∨
      ∃ before' behind', IsPair opening closing xs before' inside behind' ∧
        before = opening :: before' ∧ behind = behind' ++ [closing] := by
  obtain ⟨htext, hinside⟩ := h
  cases before with
  | nil =>
      obtain ⟨rfl, -, rfl⟩ | ⟨behind', -, rfl⟩ := concat_eq_append_cons (List.cons.inj htext).2
      · exact .inl ⟨rfl, rfl, rfl⟩
      · exact absurd hxs (hinside.not_append_closing hne)
  | cons b before =>
      obtain ⟨rfl, htail⟩ := List.cons.inj htext
      have hrest : xs ++ [closing] = (before ++ opening :: inside) ++ closing :: behind := by
        simpa using htail
      obtain ⟨-, -, rfl⟩ | ⟨behind', rfl, rfl⟩ := concat_eq_append_cons hrest
      · exact absurd hxs (hinside.not_append_opening _)
      · exact .inr ⟨before, behind', ⟨by simp, hinside⟩, rfl, rfl⟩

end IsPair

end

end MiniPascal
