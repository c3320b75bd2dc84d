import MiniPascal.Proofs.LexemeScanning
import MiniPascal.Proofs.Places

/-!
# What readings depend on

A lexeme is taken off with a look at one character behind it, so it is taken off before
every other text too that begins with this character, or with a blank, which carries no
lexeme on (`munch_before`).  A stray character is one before every text.  The place in
front matters only as far as it settles (`Cursor.next_congr`).
-/

namespace MiniPascal

/-! ### What stands behind a lexeme -/

/-- The other text begins as the first one does, or with a blank, or it is at its end. -/
def BeginsAlike (rest other : List Char) : Prop :=
  other.head? = rest.head? ∨ other.head?.all isBlank = true

/-- What no blank carries on is not carried on by the other text if it is not by the first one. -/
theorem BeginsAlike.any_eq_false {rest other : List Char} (h : BeginsAlike rest other)
    {p : Char → Bool} (hp : ∀ c, isBlank c = true → p c = false)
    (hrest : rest.head?.any p = false) : other.head?.any p = false := by
  rcases h with h | h
  · rwa [h]
  · cases other with
    | nil => rfl
    | cons c other => simpa using hp c (by simpa using h)

theorem isWordChar_of_isBlank {c : Char} (hc : isBlank c = true) : isWordChar c = false := by
  cases hword : isWordChar c with
  | false => rfl
  | true => simp [isBlank_eq_false hword] at hc

theorem isDigit_of_isBlank {c : Char} (hc : isBlank c = true) : c.isDigit = false := by
  cases hdigit : c.isDigit with
  | false => rfl
  | true => simp [isBlank_eq_false (isWordChar_of_isDigit hdigit)] at hc

theorem any_head?_dropWhile (p : Char → Bool) (cs : List Char) :
    (cs.dropWhile p).head?.any p = false := by
  have hhead := List.head?_dropWhile_not p cs
  cases hdrop : cs.dropWhile p with
  | nil => rfl
  | cons c rest => simpa [hdrop] using hhead

variable {category : Category} {c : Char} {cs taken rest other : List Char}

theorem munchWord_before (h : munchWord cs = (.lexeme category taken, rest))
    (hother : BeginsAlike rest other) :
    munchWord (taken ++ other) = (.lexeme category taken, other) := by
  obtain ⟨⟨rfl, rfl⟩, rfl⟩ := by
    simpa only [munchWord, Prod.mk.injEq, Piece.lexeme.injEq] using h
  have hword : ∀ d ∈ cs.takeWhile isWordChar, isWordChar d = true :=
    fun _ => List.mem_takeWhile_imp
  have hend := hother.any_eq_false (fun _ => isWordChar_of_isBlank) (any_head?_dropWhile _ cs)
  obtain ⟨htake, hdrop⟩ := span_of_head? hword hend
  simp only [munchWord, htake, hdrop]

theorem munchNumber_before (h : munchNumber cs = (.lexeme category taken, rest))
    (hother : BeginsAlike rest other) :
    munchNumber (taken ++ other) = (.lexeme category taken, other) := by
  have hdigits : ∀ ds : List Char, ∀ d ∈ ds.takeWhile Char.isDigit, d.isDigit = true :=
    fun _ _ => List.mem_takeWhile_imp
  have hend : ∀ ds : List Char, ds.dropWhile Char.isDigit = rest →
      other.head?.any Char.isDigit = false := by
    rintro ds rfl
    exact hother.any_eq_false (fun _ => isDigit_of_isBlank) (any_head?_dropWhile _ ds)
  unfold munchNumber at h
  split at h
  · next ds hds =>
      obtain ⟨⟨rfl, rfl⟩, hrest⟩ := by simpa only [Prod.mk.injEq, Piece.lexeme.injEq] using h
      exact munchNumber_real (hdigits cs) (hdigits ds) (hend ds hrest)
  · next hpoint =>
      obtain ⟨⟨rfl, rfl⟩, hrest⟩ := by simpa only [Prod.mk.injEq, Piece.lexeme.injEq] using h
      -- a point behind an integer would have made it a real number
      refine munchNumber_integer (hdigits cs) (hend cs hrest) fun hhead => ?_
      rcases hother with hsame | hblank
      · obtain ⟨ds, hds⟩ := List.head?_eq_some_iff.1 (hsame.symm.trans hhead)
        exact hpoint ds (hrest.trans hds)
      · rw [hhead] at hblank
        exact absurd hblank (by decide)

/-- Behind its closing quote a string does not depend on anything. -/
theorem munchQuoted_before (h : munchQuoted c cs = (.lexeme category taken, rest)) :
    ∃ chars, taken = c :: chars ∧ ∀ other,
      munchQuoted c (chars ++ other) = (.lexeme category taken, other) := by
  unfold munchQuoted at h
  split at h
  · simp at h
  · next d ds hds =>
      split at h
      · next hd =>
          obtain ⟨⟨rfl, rfl⟩, rfl⟩ := by simpa only [Prod.mk.injEq, Piece.lexeme.injEq] using h
          refine ⟨_, rfl, fun other => ?_⟩
          have hbody : ∀ e ∈ cs.takeWhile staysQuoted, staysQuoted e = true :=
            fun _ => List.mem_takeWhile_imp
          have hclosing : (d :: other).head?.any staysQuoted = false := by simp [staysQuoted, hd]
          obtain ⟨htake, hdrop⟩ := span_of_head? hbody hclosing
          have hsplit : cs.takeWhile staysQuoted ++ [d] ++ other =
              cs.takeWhile staysQuoted ++ d :: other := by simp
          show munchQuoted c (cs.takeWhile staysQuoted ++ [d] ++ other) = _
          rw [hsplit]
          simp only [munchQuoted, htake, hdrop, hd, if_true]
      · simp at h

/-- A fixed lexeme that begins the other text, and is longer by one character at most, begins the
first one too. -/
theorem prefix_of_beginsAlike {entry : List Char} (hother : BeginsAlike rest other)
    (hlength : entry.length ≤ taken.length + 1) (hblank : entry.any isBlank = false)
    (hentry : entry <+: taken ++ other) : entry <+: taken ++ rest := by
  have htaken : taken <+: taken ++ other := List.prefix_append ..
  -- a longer entry ends with the one character that the texts behind have in common
  by_cases hshort : entry.length ≤ taken.length
  · exact (List.prefix_of_prefix_length_le hentry htaken hshort).trans (List.prefix_append ..)
  · obtain ⟨tail, rfl⟩ := List.prefix_of_prefix_length_le htaken hentry (by omega)
    obtain ⟨d, rfl⟩ : ∃ d, tail = [d] := by
      rw [List.length_append] at hlength hshort
      exact List.length_eq_one_iff.1 (by omega)
    obtain ⟨behind, hbehind⟩ := (List.prefix_append_right_inj taken).1 hentry
    have hhead : other.head? = some d := by rw [← hbehind]; rfl
    rcases hother with hsame | hall
    · obtain ⟨behind', hrest⟩ := List.head?_eq_some_iff.1 (hsame.symm.trans hhead)
      exact ⟨behind', by rw [hrest]; simp⟩
    · have hnone : isBlank d = true := by simpa [hhead] using hall
      simp [hnone] at hblank

theorem fixedLexeme?_before (h : fixedLexeme? (taken ++ rest) = some (taken, category))
    (hother : BeginsAlike rest other) :
    fixedLexeme? (taken ++ other) = some (taken, category) := by
  have hnonempty : ∀ entry ∈ fixedLexemes, entry.1 ≠ [] := by decide
  have hlengths : ∀ entry ∈ fixedLexemes, entry.1.length ≤ 2 := by decide
  have hblanks : ∀ entry ∈ fixedLexemes, entry.1.any isBlank = false := by decide
  obtain ⟨-, before, behind, hsplit, hbefore⟩ := List.find?_eq_some_iff_append.1 h
  have htaken : 0 < taken.length :=
    List.length_pos_iff.2 (hnonempty _ (List.mem_of_find?_eq_some h))
  refine List.find?_eq_some_iff_append.2
    ⟨List.isPrefixOf_iff_prefix.2 (List.prefix_append ..), before, behind, hsplit,
      fun entry hentry => ?_⟩
  -- what comes earlier in the table would have been found before the first text already
  have hmem : entry ∈ fixedLexemes := by
    rw [hsplit]
    exact List.mem_append_left _ hentry
  have hlength : entry.1.length ≤ taken.length + 1 := by
    have htwo := hlengths entry hmem
    omega
  have hno := hbefore entry hentry
  simp only [Bool.not_eq_true', ← Bool.not_eq_true, List.isPrefixOf_iff_prefix] at hno ⊢
  exact mt (prefix_of_beginsAlike hother hlength (hblanks entry hmem)) hno

/-- Every character that begins a fixed lexeme is one by itself. -/
theorem fixedLexeme?_eq_none (h : fixedLexeme? (c :: cs) = none) (other : List Char) :
    fixedLexeme? (c :: other) = none := by
  have hsingle : ∀ entry ∈ fixedLexemes, ∃ found ∈ fixedLexemes, found.1 = entry.1.take 1 := by
    decide
  refine List.find?_eq_none.2 fun entry hentry hstarts => ?_
  obtain ⟨found, hfound, hchars⟩ := hsingle entry hentry
  have hone : found.1 <+: c :: cs := by
    rw [List.isPrefixOf_iff_prefix] at hstarts
    rw [hchars]
    cases hds : entry.1 with
    | nil => exact List.nil_prefix
    | cons d ds =>
        rw [hds] at hstarts
        obtain ⟨rfl, -⟩ := List.cons_prefix_cons.1 hstarts
        exact List.prefix_append [d] cs
  exact List.find?_eq_none.1 h found hfound (List.isPrefixOf_iff_prefix.2 hone)

/-- The first character decides what kind of piece is taken off. -/
theorem munch_cases (c : Char) :
    (c.isDigit = true ∧ ∀ cs, munch c cs = munchNumber (c :: cs)) ∨
    (isWordChar c = true ∧ ∀ cs, munch c cs = munchWord (c :: cs)) ∨
    (isQuote c = true ∧ ∀ cs, munch c cs = munchQuoted c cs) ∨
    ((∀ cs taken category, fixedLexeme? (c :: cs) = some (taken, category) →
        munch c cs = (.lexeme category taken, (c :: cs).drop taken.length)) ∧
      ∀ cs, fixedLexeme? (c :: cs) = none → munch c cs = (.stray c, cs)) := by
  by_cases hdigit : c.isDigit = true
  · exact .inl ⟨hdigit, fun cs => by simp [munch, hdigit]⟩
  by_cases hword : isWordChar c = true
  · exact .inr (.inl ⟨hword, fun cs => by simp [munch, hdigit, hword]⟩)
  by_cases hquote : isQuote c = true
  · exact .inr (.inr (.inl ⟨hquote, fun cs => by simp [munch, hdigit, hword, hquote]⟩))
  · refine .inr (.inr (.inr ⟨fun cs taken category hfixed => ?_, fun cs hfixed => ?_⟩)) <;>
      simp [munch, hdigit, hword, hquote, hfixed]

/-- **A lexeme is decided by the next character.**  It is taken off before every text that begins as
the one behind it does, or with a blank, and at the end of the text. -/
theorem munch_before (h : munch c cs = (.lexeme category taken, rest))
    (hother : BeginsAlike rest other) :
    ∃ chars, taken = c :: chars ∧ cs = chars ++ rest ∧
      munch c (chars ++ other) = (.lexeme category taken, other) := by
  obtain ⟨chars, rfl, hcs⟩ : ∃ chars, taken = c :: chars ∧ cs = chars ++ rest := by
    have happend := munch_append c cs
    have hne := munch_chars_ne_nil c cs
    rw [h] at happend hne
    obtain ⟨d, chars, rfl⟩ := List.exists_cons_of_ne_nil hne
    obtain ⟨rfl, hcs⟩ := List.cons.inj happend
    exact ⟨chars, rfl, hcs.symm⟩
  refine ⟨chars, rfl, hcs, ?_⟩
  rcases munch_cases c with ⟨-, hmunch⟩ | ⟨-, hmunch⟩ | ⟨-, hmunch⟩ | ⟨hfound, hnone⟩
  · rw [hmunch] at h ⊢
    exact munchNumber_before h hother
  · rw [hmunch] at h ⊢
    exact munchWord_before h hother
  · rw [hmunch] at h ⊢
    obtain ⟨chars', hchars, hbefore⟩ := munchQuoted_before h
    obtain ⟨-, rfl⟩ := List.cons.inj hchars
    exact hbefore other
  · cases hfixed : fixedLexeme? (c :: cs) with
    | none => simp [hnone cs hfixed] at h
    | some found =>
        rw [hfound cs _ _ hfixed] at h
        obtain ⟨⟨hcategory, htaken⟩, -⟩ := by
          simpa only [Prod.mk.injEq, Piece.lexeme.injEq] using h
        obtain rfl : found = (c :: chars, category) := Prod.ext htaken hcategory
        rw [hcs, ← List.cons_append] at hfixed
        have hfixed' : fixedLexeme? (c :: (chars ++ other)) = some (c :: chars, category) :=
          fixedLexeme?_before hfixed hother
        rw [hfound _ _ _ hfixed']
        simp

/-- A character that begins no lexeme before one text begins none before another. -/
theorem munch_stray {d : Char} (h : munch c cs = (.stray d, rest)) (other : List Char) :
    munch c other = (.stray c, other) := by
  rcases munch_cases c with ⟨-, hmunch⟩ | ⟨-, hmunch⟩ | ⟨-, hmunch⟩ | ⟨hfound, hnone⟩
  · rw [hmunch] at h
    unfold munchNumber at h
    split at h <;> simp at h
  · simp [hmunch, munchWord] at h
  · rw [hmunch] at h
    unfold munchQuoted at h
    split at h
    · simp at h
    · split at h <;> simp at h
  · cases hfixed : fixedLexeme? (c :: cs) with
    | none => exact hnone other (fixedLexeme?_eq_none hfixed other)
    | some found => simp [hfound cs _ _ hfixed] at h

/-! ### The place in front -/

namespace Location

variable {l m : Location}

theorem advanceAll_congr (h : l.settle = m.settle) (hne : cs ≠ []) :
    l.advanceAll cs = m.advanceAll cs := by
  obtain ⟨c, cs, rfl⟩ := List.exists_cons_of_ne_nil hne
  rw [advanceAll_cons, advanceAll_cons, advance_congr h]

/-- Up to the next line feed, and with it, all characters are on one line. -/
theorem line_advanceAll_concat (hcs : '\n' ∉ cs) (c : Char) :
    (l.advanceAll (cs ++ [c])).line = l.settle.line := by
  induction cs generalizing l with
  | nil => rw [List.nil_append, advanceAll_cons, advanceAll_nil, advance_eq_settle]
  | cons d cs ih =>
      obtain ⟨hd, hothers⟩ : d ≠ '\n' ∧ '\n' ∉ cs := by simpa [eq_comm] using hcs
      have hsettle : (l.advance d).settle.line = l.settle.line := by
        simp [advance_eq_settle, settle, hd]
      rw [List.cons_append, advanceAll_cons, ih hothers, hsettle]

end Location

namespace Cursor

variable {l m : Location}

theorem skipGap_congr (h : l.settle = m.settle) (inComment : Bool) (cs : List Char) :
    (skipGap inComment l cs).rest = (skipGap inComment m cs).rest ∧
      (skipGap inComment l cs).location.settle = (skipGap inComment m cs).location.settle := by
  cases cs with
  | nil => exact ⟨rfl, h⟩
  | cons c cs =>
      unfold skipGap
      rw [Location.advance_congr h c]
      split
      · exact ⟨rfl, rfl⟩
      · split
        · exact ⟨rfl, rfl⟩
        · split
          · exact ⟨rfl, rfl⟩
          · exact ⟨rfl, h⟩

theorem readPiece_congr {cursor other : Cursor} (hrest : cursor.rest = other.rest)
    (hlocation : cursor.location.settle = other.location.settle) :
    cursor.readPiece = other.readPiece := by
  obtain ⟨l, cs⟩ := cursor
  obtain ⟨m, ds⟩ := other
  obtain rfl : cs = ds := hrest
  cases cs with
  | nil => simp only [readPiece, show l.settle = m.settle from hlocation]
  | cons c cs =>
      simp only [readPiece, Location.advanceAll_congr hlocation (munch_chars_ne_nil c cs)]

/-- Where the location in front settles decides all places of a reading. -/
theorem next_congr (h : l.settle = m.settle) (cs : List Char) :
    (Cursor.mk l cs).next = (Cursor.mk m cs).next := by
  obtain ⟨hrest, hlocation⟩ := skipGap_congr h false cs
  exact readPiece_congr hrest hlocation

end Cursor

end MiniPascal
