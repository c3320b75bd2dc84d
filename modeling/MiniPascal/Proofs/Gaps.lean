import MiniPascal.Token.Scan

/-!
# Gaps

Lexemes are separated by blanks and by comments, which run from two slashes through
the next line feed.  At the end of a text a comment may be left open.
-/

namespace MiniPascal

/-- Blanks and comments, each comment with the line feed that ends it. -/
inductive IsGap : List Char → Prop
  | nil : IsGap []
  | blank {c : Char} {cs : List Char} (hc : isBlank c = true) (hcs : IsGap cs) : IsGap (c :: cs)
  | comment {body cs : List Char} (hbody : '\n' ∉ body) (hcs : IsGap cs) :
      IsGap ('/' :: '/' :: (body ++ '\n' :: cs))

/-- A gap, or one that goes over into a comment without a line feed. -/
inductive IsLastGap : List Char → Prop
  | closed {cs : List Char} (hcs : IsGap cs) : IsLastGap cs
  | unclosed {gap body : List Char} (hgap : IsGap gap) (hbody : '\n' ∉ body) :
      IsLastGap (gap ++ '/' :: '/' :: body)

theorem IsLastGap.blank {c : Char} {cs : List Char} (hc : isBlank c = true) (h : IsLastGap cs) :
    IsLastGap (c :: cs) := by
  cases h with
  | closed hcs => exact .closed (.blank hc hcs)
  | unclosed hgap hbody => exact .unclosed (.blank hc hgap) hbody

theorem IsLastGap.comment {body cs : List Char} (hbody : '\n' ∉ body) (h : IsLastGap cs) :
    IsLastGap ('/' :: '/' :: (body ++ '\n' :: cs)) := by
  cases h with
  | closed hcs => exact .closed (.comment hbody hcs)
  | @unclosed gap body' hgap hbody' =>
      have hopen := IsLastGap.unclosed (IsGap.comment hbody hgap) hbody'
      simpa using hopen

namespace Cursor

theorem skipGap_blank {c : Char} (hc : isBlank c = true) (l : Location) (cs : List Char) :
    skipGap false l (c :: cs) = skipGap false (l.advance c) cs := by
  simp [skipGap, hc]

/-- A comment is skipped together with its line feed. -/
theorem skipGap_comment {body : List Char} (hbody : '\n' ∉ body) (l : Location) (cs : List Char) :
    skipGap true l (body ++ '\n' :: cs) = skipGap false (l.advanceAll (body ++ ['\n'])) cs := by
  induction body generalizing l with
  | nil => simp [skipGap]
  | cons c body ih =>
      simp only [List.mem_cons, not_or] at hbody
      obtain ⟨hc, hothers⟩ := hbody
      have hne : (c != '\n') = true := by simpa using Ne.symm hc
      simp [skipGap, hne, ih hothers]

/-- A comment without a line feed is skipped through the end of the text. -/
theorem skipGap_openComment {body : List Char} (hbody : '\n' ∉ body) (l : Location) :
    skipGap true l body = ⟨l.advanceAll body, []⟩ := by
  induction body generalizing l with
  | nil => rfl
  | cons c body ih =>
      simp only [List.mem_cons, not_or] at hbody
      obtain ⟨hc, hothers⟩ := hbody
      have hne : (c != '\n') = true := by simpa using Ne.symm hc
      simp [skipGap, hne, ih hothers]

theorem skipGap_slashes (l : Location) (cs : List Char) :
    skipGap false l ('/' :: '/' :: cs) = skipGap true (l.advanceAll ['/', '/']) cs := by
  simp [skipGap, isBlank]

theorem skipGap_stop {c : Char} {cs : List Char} (hc : isBlank c = false)
    (hcomment : (c == '/' && cs.head? == some '/') = false) (l : Location) :
    skipGap false l (c :: cs) = ⟨l, c :: cs⟩ := by
  simp only [skipGap, hc, hcomment, Bool.false_eq_true, if_false]

/-- A cursor has been moved behind a gap, as far as it goes. -/
structure Skips (l : Location) (cs gap : List Char) (after : Cursor) : Prop where
  split : cs = gap ++ after.rest
  location : after.location = l.advanceAll gap
  isGap : IsGap gap ∨ after.rest = [] ∧ IsLastGap gap
  stops : ∀ c ds, after.rest = c :: ds →
    isBlank c = false ∧ (c == '/' && ds.head? == some '/') = false

theorem Skips.blank {l : Location} {c : Char} {cs gap : List Char} {after : Cursor}
    (hc : isBlank c = true) (h : Skips (l.advance c) cs gap after) :
    Skips l (c :: cs) (c :: gap) after where
  split := congrArg (c :: ·) h.split
  location := h.location
  isGap := h.isGap.imp (.blank hc) fun hlast => ⟨hlast.1, hlast.2.blank hc⟩
  stops := h.stops

theorem Skips.comment {l : Location} {body cs gap : List Char} {after : Cursor}
    (hbody : '\n' ∉ body)
    (h : Skips (l.advanceAll ('/' :: '/' :: (body ++ ['\n']))) cs gap after) :
    Skips l ('/' :: '/' :: (body ++ '\n' :: cs)) ('/' :: '/' :: (body ++ '\n' :: gap)) after where
  split := by
    rw [h.split]
    simp
  location := by
    rw [h.location, ← Location.advanceAll_append]
    simp
  isGap := h.isGap.imp (.comment hbody) fun hlast => ⟨hlast.1, hlast.2.comment hbody⟩
  stops := h.stops

/-- What is skipped is a gap, and a comment is left open only at the end of the text. -/
theorem exists_skips (l : Location) (cs : List Char) :
    ∃ gap, Skips l cs gap (skipGap false l cs) := by
  -- a comment is skipped as a whole, so the induction is on the length
  induction hlength : cs.length using Nat.strongRecOn generalizing l cs with
  | ind n ih =>
      cases cs with
      | nil => exact ⟨[], rfl, rfl, .inl .nil, by simp [skipGap]⟩
      | cons c cs =>
          cases hblank : isBlank c with
          | true =>
              obtain ⟨gap, hgap⟩ := ih cs.length (by simp [← hlength]) (l.advance c) cs rfl
              rw [skipGap_blank hblank]
              exact ⟨c :: gap, hgap.blank hblank⟩
          | false =>
              cases hslashes : c == '/' && cs.head? == some '/' with
              | false =>
                  rw [skipGap_stop hblank hslashes]
                  refine ⟨[], rfl, rfl, .inl .nil, fun d ds hrest => ?_⟩
                  obtain ⟨rfl, rfl⟩ := List.cons.inj hrest
                  exact ⟨hblank, hslashes⟩
              | true =>
                  obtain ⟨rfl, ds, rfl⟩ : c = '/' ∧ ∃ ds, cs = '/' :: ds := by
                    cases cs <;> simp_all
                  rw [skipGap_slashes]
                  by_cases hbreak : '\n' ∈ ds
                  · obtain ⟨body, rest, rfl, hbody⟩ := List.eq_append_cons_of_mem hbreak
                    obtain ⟨gap, hgap⟩ := ih rest.length (by simp [← hlength]; omega)
                      (l.advanceAll ('/' :: '/' :: (body ++ ['\n']))) rest rfl
                    rw [skipGap_comment hbody]
                    exact ⟨_, hgap.comment hbody⟩
                  · rw [skipGap_openComment hbreak]
                    have hlast : IsLastGap ('/' :: '/' :: ds) := .unclosed .nil hbreak
                    exact ⟨'/' :: '/' :: ds, by simp, rfl, .inr ⟨rfl, hlast⟩, by simp⟩

end Cursor

end MiniPascal
