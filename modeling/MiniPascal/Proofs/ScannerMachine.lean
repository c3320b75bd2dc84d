import MiniPascal.Proofs.LexemeScanning
import MiniPascal.Proofs.Places
import MiniPascal.Proofs.ScanRun
import MiniPascal.Token.Machine

/-!
# The scanning machine at work

The machine reads one character at a time what `Cursor.next` takes off as a whole, and
stands behind it in the end.  What it has read of a lexeme is the front of the piece that
stands there; a step either reads on in the same piece or has the whole of it.
-/

namespace MiniPascal

/-- Behind some characters without a line feed a location has settled. -/
theorem Location.settle_advanceAll {cs : List Char} (hne : cs ≠ []) (hfeed : '\n' ∉ cs)
    (l : Location) : (l.advanceAll cs).settle = l.advanceAll cs := by
  obtain ⟨front, c, rfl⟩ := (List.eq_nil_or_concat cs).resolve_left hne
  have hc : ¬c = '\n' := by
    rintro rfl
    simp at hfeed
  rw [List.concat_eq_append, advanceAll_concat]
  by_cases h : (l.advanceAll front).afterLineFeed <;> simp [advance, settle, h, hc]

/-! ### Pieces with what follows them -/

namespace Munches

variable {cs rest : List Char}

/-- A fixed lexeme of one character, where no longer one begins. -/
theorem single {c : Char} {category : Category} (h : ([c], category) ∈ fixedLexemes)
    (hcs : ∀ d ds, cs = d :: ds → [c, d] ∉ fixedLexemes.map Prod.fst) :
    Munches (c :: cs) (.lexeme category [c]) cs := by
  have hheads : ∀ entry ∈ fixedLexemes, entry.1.all (fun d => isWordChar d || isQuote d) = false ∧
      entry.1.length ≤ 2 := by decide
  have hkeys : ∀ entry ∈ fixedLexemes, ∀ other ∈ fixedLexemes, entry.1 = other.1 →
      entry.2 = other.2 := by decide
  refine fixed (by simpa using (hheads _ h).1) ?_ rfl
  cases hfound : fixedLexeme? (c :: cs) with
  | none =>
      have hnone := List.find?_eq_none.1 hfound _ h
      simp at hnone
  | some entry =>
      obtain ⟨chars, found⟩ := entry
      have hmem : (chars, found) ∈ fixedLexemes := List.mem_of_find?_eq_some hfound
      have hprefix := List.isPrefixOf_iff_prefix.1 (isPrefixOf_of_fixedLexeme? hfound)
      obtain ⟨hsome, hlength⟩ := hheads _ hmem
      match chars with
      | [] => simp at hsome
      | [d] =>
          obtain rfl : d = c := by simpa using hprefix
          obtain rfl : found = category := hkeys _ hmem _ h rfl
          rfl
      | [d, e] =>
          obtain ⟨rfl, ds, hds⟩ : c = d ∧ ∃ ds, cs = e :: ds := by
            simpa [List.cons_prefix_iff] using hprefix
          exact absurd (List.mem_map_of_mem hmem) (hcs e ds hds)
      | _ :: _ :: _ :: _ => simp at hlength

/-- The longer ones begin with a colon or with a less or greater sign. -/
theorem single_of_notMem {c : Char} {category : Category} (h : ([c], category) ∈ fixedLexemes)
    (hc : c ∉ [':', '<', '>']) : Munches (c :: cs) (.lexeme category [c]) cs := by
  have hlonger : ∀ chars ∈ fixedLexemes.map Prod.fst, chars.length = 2 →
      chars.headD c ∈ [':', '<', '>'] := by simp [fixedLexemes]
  exact single h fun d ds _ hmem => hc (hlonger [c, d] hmem rfl)

/-- A character that begins no lexeme. -/
theorem stray {c : Char} (hc : (isWordChar c || isQuote c) = false)
    (hother : c ∉ fixedLexemes.map fun entry => entry.1.headD c) :
    Munches (c :: cs) (.stray c) cs := by
  obtain ⟨hword, hquote⟩ := Bool.or_eq_false_iff.1 hc
  have hnone : fixedLexeme? (c :: cs) = none := by
    refine List.find?_eq_none.2 fun entry hentry hprefix => hother ?_
    refine List.mem_map.2 ⟨entry, hentry, ?_⟩
    cases hchars : entry.1 with
    | nil => rfl
    | cons d ds =>
        rw [hchars] at hprefix
        obtain ⟨hd, -⟩ : d = c ∧ ds <+: cs := by simpa using hprefix
        exact hd
  simp [Munches, munch, isDigit_eq_false hword, hword, hquote, hnone]

end Munches

/-! ### What the machine has read -/

/-- What has been read of a lexeme in a state that is inside of one. -/
inductive ScanState.Holds : ScanState → List Char → Prop
  | word {c : Char} {cs : List Char} (hdigit : c.isDigit = false)
      (hcs : ∀ d ∈ c :: cs, isWordChar d = true) : Holds .word (c :: cs)
  | integer {digits : List Char} (hne : digits ≠ []) (hdigits : ∀ c ∈ digits, c.isDigit = true) :
      Holds .integer digits
  | fraction {whole digits : List Char} (hne : whole ≠ [])
      (hwhole : ∀ c ∈ whole, c.isDigit = true) (hdigits : ∀ c ∈ digits, c.isDigit = true) :
      Holds .fraction (whole ++ '.' :: digits)
  | relational {c : Char} (hc : c ∈ ['<', '>']) : Holds .relational [c]
  | colon : Holds .colon [':']
  | text {quote : Char} {body : List Char} (hquote : isQuote quote = true)
      (hbody : ∀ c ∈ body, staysQuoted c = true) : Holds .text (quote :: body)

/-- Something has been read, and no line feed. -/
theorem ScanState.Holds.noLineFeed {state : ScanState} {lexeme : List Char}
    (h : state.Holds lexeme) : lexeme ≠ [] ∧ '\n' ∉ lexeme := by
  cases h with
  | word hdigit hcs =>
      refine ⟨by simp, fun hmem => ?_⟩
      exact absurd (hcs _ hmem) (by decide)
  | integer hne hdigits =>
      refine ⟨hne, fun hmem => ?_⟩
      exact absurd (hdigits _ hmem) (by decide)
  | @fraction whole digits hne hwhole hdigits =>
      refine ⟨by simp, fun hmem => ?_⟩
      rcases List.mem_append.1 hmem with hmem | hmem
      · exact absurd (hwhole _ hmem) (by decide)
      · rcases List.mem_cons.1 hmem with heq | hmem
        · exact absurd heq (by decide)
        · exact absurd (hdigits _ hmem) (by decide)
  | relational hc =>
      simp only [List.mem_cons, List.not_mem_nil, or_false] at hc
      rcases hc with rfl | rfl <;> decide
  | colon => decide
  | @text quote body hquote hbody =>
      refine ⟨by simp, fun hmem => ?_⟩
      rcases List.mem_cons.1 hmem with rfl | hmem
      · exact absurd hquote (by decide)
      · exact absurd (hbody _ hmem) (by decide)

/-- The cursor stands behind `lexeme`, which stands behind the gap at the front of `start`. -/
structure Cursor.ReadsIn (start : Cursor) (lexeme : List Char) (cursor : Cursor) : Prop where
  split : start.skipBlanks.rest = lexeme ++ cursor.rest
  location : cursor.location = start.skipBlanks.location.advanceAll lexeme

namespace Cursor.ReadsIn

variable {start cursor : Cursor} {lexeme : List Char}

/-- Where no gap is left, the first character is read. -/
theorem first {l : Location} {c : Char} {cs : List Char}
    (hskip : skipGap false l (c :: cs) = start.skipBlanks) (hblank : isBlank c = false)
    (hcomment : (c == '/' && cs.head? == some '/') = false) :
    start.ReadsIn [c] ⟨l.advance c, cs⟩ := by
  rw [skipGap_stop hblank hcomment] at hskip
  exact ⟨by rw [← hskip]; rfl, by rw [← hskip]; rfl⟩

/-- One character more is read. -/
theorem read {c : Char} {cs : List Char} (h : start.ReadsIn lexeme cursor)
    (hrest : cursor.rest = c :: cs) :
    start.ReadsIn (lexeme ++ [c]) ⟨cursor.location.advance c, cs⟩ where
  split := by
    rw [h.split, hrest]
    simp
  location := by rw [h.location, Location.advanceAll_concat]

/-- The end of the text does not change the place of a lexeme. -/
theorem settle {state : ScanState} (h : start.ReadsIn lexeme cursor)
    (hholds : state.Holds lexeme) (hrest : cursor.rest = []) :
    start.ReadsIn lexeme ⟨cursor.location.settle, []⟩ where
  split := by rw [h.split, hrest]
  location := by
    obtain ⟨hne, hfeed⟩ := hholds.noLineFeed
    rw [h.location, Location.settle_advanceAll hne hfeed]

/-- The piece that has been read is the next answer. -/
theorem next_eq (piece : Piece) (h : start.ReadsIn piece.chars cursor)
    (hmunches : Munches (piece.chars ++ cursor.rest) piece cursor.rest) :
    start.next = (piece.reading cursor.location, cursor) := by
  cases hfront : piece.chars ++ cursor.rest with
  | nil =>
      rw [hfront] at hmunches
      exact hmunches.elim
  | cons c cs =>
      rw [hfront] at hmunches
      have hmunch : munch c cs = (piece, cursor.rest) := hmunches
      rw [Cursor.next_of_rest_cons (h.split.trans hfront), hmunch, ← h.location]

end Cursor.ReadsIn

namespace Machine

/-- The machine is in front of the next lexeme of `start`, or inside of it. -/
inductive Follows (start : Cursor) : Machine → Prop
  | between {lexeme : List Char} {r : Reader} (hskip : r.cursor.skipBlanks = start.skipBlanks) :
      Follows start ⟨.initial, lexeme, r⟩
  | inside {state : ScanState} {lexeme : List Char} {r : Reader} (hholds : state.Holds lexeme)
      (hread : start.ReadsIn lexeme r.cursor) : Follows start ⟨state, lexeme, r⟩

/-- A step goes on in front of or inside of the next lexeme, or answers what is read there. -/
def Step.KeepsTo (start : Cursor) : Step → Prop
  | goesOn m => m.Follows start
  | answers reading r => start.next = (reading, r.cursor)

variable {start : Cursor} {r : Reader} {lexeme : List Char}

theorem complete_keepsTo {category : Category} (hread : start.ReadsIn lexeme r.cursor)
    (hmunches : Munches (lexeme ++ r.cursor.rest) (.lexeme category lexeme) r.cursor.rest) :
    (complete r category lexeme).KeepsTo start :=
  hread.next_eq (.lexeme category lexeme) hmunches

/-! ### One step in each state -/

theorem step_word {c : Char} {cs : List Char} (hdigit : c.isDigit = false)
    (hcs : ∀ d ∈ c :: cs, isWordChar d = true) (hread : start.ReadsIn (c :: cs) r.cursor) :
    (step ⟨.word, c :: cs, r⟩).KeepsTo start := by
  cases hrest : r.cursor.rest with
  | nil =>
      rw [step, Reader.read_of_rest_nil hrest]
      exact complete_keepsTo (hread.settle (.word hdigit hcs) hrest) (.word hdigit hcs rfl)
  | cons d ds =>
      rw [step, Reader.read_of_rest_cons hrest]
      cases hd : isWordChar d with
      | true =>
          simp only [hd, if_true]
          have hmore : ∀ e ∈ c :: cs ++ [d], isWordChar e = true :=
            List.forall_mem_append.2 ⟨hcs, List.forall_mem_singleton.2 hd⟩
          exact .inside (.word hdigit hmore) (hread.read hrest)
      | false =>
          simp only [hd, Bool.false_eq_true, if_false]
          refine complete_keepsTo (r := ⟨r.cursor, none⟩) hread (.word hdigit hcs ?_)
          simp [hrest, hd]

theorem step_integer {digits : List Char} (hne : digits ≠ [])
    (hdigits : ∀ c ∈ digits, c.isDigit = true) (hread : start.ReadsIn digits r.cursor) :
    (step ⟨.integer, digits, r⟩).KeepsTo start := by
  cases hrest : r.cursor.rest with
  | nil =>
      rw [step, Reader.read_of_rest_nil hrest]
      refine complete_keepsTo (hread.settle (.integer hne hdigits) hrest) ?_
      exact .of_munchNumber hne hdigits (munchNumber_integer hdigits rfl (by simp))
  | cons d ds =>
      rw [step, Reader.read_of_rest_cons hrest]
      cases hd : d.isDigit with
      | true =>
          simp only [hd, if_true]
          have hmore : ∀ e ∈ digits ++ [d], e.isDigit = true :=
            List.forall_mem_append.2 ⟨hdigits, List.forall_mem_singleton.2 hd⟩
          exact .inside (.integer (by simp) hmore) (hread.read hrest)
      | false =>
          simp only [hd, Bool.false_eq_true, if_false]
          by_cases hpoint : d = '.'
          · subst hpoint
            exact .inside (.fraction hne hdigits (by simp)) (hread.read hrest)
          · rw [if_neg (by simpa using hpoint)]
            refine complete_keepsTo (r := ⟨r.cursor, none⟩) hread (.of_munchNumber hne hdigits ?_)
            exact munchNumber_integer hdigits (by simp [hrest, hd]) (by simp [hrest, hpoint])

theorem step_fraction {whole digits : List Char} (hne : whole ≠ [])
    (hwhole : ∀ c ∈ whole, c.isDigit = true) (hdigits : ∀ c ∈ digits, c.isDigit = true)
    (hread : start.ReadsIn (whole ++ '.' :: digits) r.cursor) :
    (step ⟨.fraction, whole ++ '.' :: digits, r⟩).KeepsTo start := by
  have hmunches {rest : List Char} (hrest : rest.head?.any Char.isDigit = false) :
      Munches (whole ++ '.' :: digits ++ rest)
        (.lexeme .realNumber (whole ++ '.' :: digits)) rest := by
    have hmunch := munchNumber_real hwhole hdigits hrest
    rw [List.append_assoc] at hmunch ⊢
    exact .of_munchNumber hne hwhole hmunch
  cases hrest : r.cursor.rest with
  | nil =>
      rw [step, Reader.read_of_rest_nil hrest]
      exact complete_keepsTo (hread.settle (.fraction hne hwhole hdigits) hrest) (hmunches rfl)
  | cons d ds =>
      rw [step, Reader.read_of_rest_cons hrest]
      cases hd : d.isDigit with
      | true =>
          simp only [hd, if_true]
          have hmore : ∀ e ∈ digits ++ [d], e.isDigit = true :=
            List.forall_mem_append.2 ⟨hdigits, List.forall_mem_singleton.2 hd⟩
          have hlonger := hread.read hrest
          rw [List.append_assoc, List.cons_append] at hlonger ⊢
          exact .inside (.fraction hne hwhole hmore) hlonger
      | false =>
          simp only [hd, Bool.false_eq_true, if_false]
          exact complete_keepsTo (r := ⟨r.cursor, none⟩) hread (hmunches (by simp [hrest, hd]))

theorem step_relational {c : Char} (hc : c ∈ ['<', '>']) (hread : start.ReadsIn [c] r.cursor) :
    (step ⟨.relational, [c], r⟩).KeepsTo start := by
  have hfixed : ∀ d ∈ ['<', '>'], ([d], Category.relationalOperator) ∈ fixedLexemes := by
    simp [fixedLexemes]
  cases hrest : r.cursor.rest with
  | nil =>
      rw [step, Reader.read_of_rest_nil hrest]
      exact complete_keepsTo (hread.settle (.relational hc) hrest) (.single (hfixed c hc) (by simp))
  | cons d ds =>
      rw [step, Reader.read_of_rest_cons hrest]
      simp only [List.mem_cons, List.not_mem_nil, or_false] at hc
      cases hd : d == '=' || (d == '>' && [c] == ['<']) with
      | true =>
          simp only [hd, if_true]
          obtain ⟨rfl, rfl⟩ | ⟨rfl, rfl⟩ | ⟨rfl, rfl⟩ :
              d = '=' ∧ c = '<' ∨ d = '=' ∧ c = '>' ∨ d = '>' ∧ c = '<' := by
            rcases hc with rfl | rfl <;> simpa using hd
          all_goals exact complete_keepsTo (hread.read hrest) (.fixed rfl rfl rfl)
      | false =>
          simp only [hd, Bool.false_eq_true, if_false]
          refine complete_keepsTo (r := ⟨r.cursor, none⟩) hread
            (.single (hfixed c (by simpa using hc)) fun e es hes => ?_)
          obtain ⟨rfl, -⟩ := List.cons.inj (hrest.symm.trans hes)
          rcases hc with rfl | rfl <;> simpa [fixedLexemes] using hd

theorem step_colon (hread : start.ReadsIn [':'] r.cursor) :
    (step ⟨.colon, [':'], r⟩).KeepsTo start := by
  have hfixed : ([':'], Category.symbol) ∈ fixedLexemes := by decide
  cases hrest : r.cursor.rest with
  | nil =>
      rw [step, Reader.read_of_rest_nil hrest]
      exact complete_keepsTo (hread.settle .colon hrest) (.single hfixed (by simp))
  | cons d ds =>
      rw [step, Reader.read_of_rest_cons hrest]
      by_cases hd : d = '='
      · subst hd
        exact complete_keepsTo (hread.read hrest) (.fixed rfl rfl rfl)
      · simp only [beq_eq_false_iff_ne.2 hd, Bool.false_eq_true, if_false]
        refine complete_keepsTo (r := ⟨r.cursor, none⟩) hread (.single hfixed fun e es hes => ?_)
        obtain ⟨rfl, -⟩ := List.cons.inj (hrest.symm.trans hes)
        simpa [fixedLexemes] using hd

theorem step_text {quote : Char} {body : List Char} (hquote : isQuote quote = true)
    (hbody : ∀ c ∈ body, staysQuoted c = true) (hread : start.ReadsIn (quote :: body) r.cursor) :
    (step ⟨.text, quote :: body, r⟩).KeepsTo start := by
  cases hrest : r.cursor.rest with
  | nil =>
      rw [step, Reader.read_of_rest_nil hrest]
      refine (hread.settle (.text hquote hbody) hrest).next_eq (.unclosed _) ?_
      rw [List.append_nil]
      exact .openString hquote hbody
  | cons d ds =>
      have hlonger := hread.read hrest
      have hsplit : quote :: body ++ [d] ++ ds = quote :: (body ++ d :: ds) := by simp
      rw [step, Reader.read_of_rest_cons hrest]
      by_cases hfeed : d = '\n'
      · subst hfeed
        refine hlonger.next_eq (.unclosed _) ?_
        exact hsplit ▸ Munches.brokenString hquote hbody
      · simp only [beq_eq_false_iff_ne.2 hfeed, Bool.false_eq_true, if_false]
        cases hd : isQuote d with
        | true =>
            exact complete_keepsTo hlonger (hsplit ▸ .string hquote hbody hd)
        | false =>
            have hstays : staysQuoted d = true := by simp [staysQuoted, hd, hfeed]
            have hmore : ∀ e ∈ body ++ [d], staysQuoted e = true :=
              List.forall_mem_append.2 ⟨hbody, List.forall_mem_singleton.2 hstays⟩
            exact .inside (.text hquote hmore) hlonger

/-- A line that does not follow a line feed is skipped as a comment is. -/
theorem skipBlanks_skipLine (r : Reader) (h : r.cursor.location.afterLineFeed = false) :
    r.skipLine.cursor.skipBlanks = Cursor.skipGap true r.cursor.location r.cursor.rest := by
  induction hrest : r.cursor.rest generalizing r with
  | nil =>
      rw [Reader.skipLine_of_rest_nil hrest]
      simp [Location.settle, h, Cursor.skipBlanks, Cursor.skipGap]
  | cons c cs ih =>
      rw [Reader.skipLine_of_rest_cons hrest]
      by_cases hc : c = '\n'
      · subst hc
        simp [Cursor.skipBlanks, Cursor.skipGap]
      · have hfeed : (r.cursor.location.advance c).afterLineFeed = false := by
          simp [Location.advance_eq_settle, hc]
        rw [if_neg (by simpa using hc), ih _ hfeed rfl]
        simp [Cursor.skipGap, bne_iff_ne.2 hc]

/-- Two slashes begin a comment, and one alone is an operator. -/
theorem startStep_slash {l : Location} {cs : List Char} {previous : Option Cursor}
    (hskip : Cursor.skipGap false l ('/' :: cs) = start.skipBlanks) :
    (startStep '/' ⟨⟨l.advance '/', cs⟩, previous⟩).KeepsTo start := by
  have hread (hhead : cs.head? ≠ some '/') : start.ReadsIn ['/'] ⟨l.advance '/', cs⟩ :=
    .first hskip rfl (by simpa using hhead)
  have hmunches {ds : List Char} :
      Munches ('/' :: ds) (.lexeme .arithmeticOperator ['/']) ds :=
    .single_of_notMem (by decide) (by decide)
  have hfeed : (l.advance '/').settle = l.advance '/' :=
    Location.settle_advanceAll (List.cons_ne_nil '/' []) (by decide) l
  cases cs with
  | nil =>
      have hend := hread (by simp)
      rw [← hfeed] at hend
      exact complete_keepsTo (r := ⟨⟨(l.advance '/').settle, []⟩, none⟩) hend hmunches
  | cons d ds =>
      by_cases hd : d = '/'
      · subst hd
        refine .between ?_
        rw [skipBlanks_skipLine _ (by simp [Location.advance_eq_settle]), ← hskip,
          Cursor.skipGap_slashes]
        rfl
      · have hstep : startStep '/' ⟨⟨l.advance '/', d :: ds⟩, previous⟩ =
            complete ⟨⟨l.advance '/', d :: ds⟩, none⟩ .arithmeticOperator ['/'] := by
          simp [startStep, isBlank, Reader.read, Reader.unread, hd]
        rw [hstep]
        exact complete_keepsTo (hread (by simpa using hd)) hmunches

theorem startStep_keepsTo {l : Location} {c : Char} {cs : List Char} {previous : Option Cursor}
    (hskip : Cursor.skipGap false l (c :: cs) = start.skipBlanks) :
    (startStep c ⟨⟨l.advance c, cs⟩, previous⟩).KeepsTo start := by
  by_cases hslash : c = '/'
  · subst hslash
    exact startStep_slash hskip
  rw [startStep]
  by_cases hblank : isBlank c
  · rw [if_pos hblank]
    exact .between ((Cursor.skipGap_blank hblank l cs).symm.trans hskip)
  -- what is neither blank nor a slash begins a piece, and that has been read in part
  have hread : start.ReadsIn [c] ⟨l.advance c, cs⟩ :=
    .first hskip (by simpa using hblank) (by simp [hslash])
  rw [if_neg hblank, if_neg (by simpa using hslash)]
  by_cases hdigit : c.isDigit
  · rw [if_pos hdigit]
    exact .inside (.integer (by simp) (by simpa using hdigit)) hread
  rw [if_neg hdigit]
  by_cases hword : isWordChar c
  · rw [if_pos hword]
    exact .inside (.word (by simpa using hdigit) (by simpa using hword)) hread
  rw [if_neg hword]
  by_cases hcolon : c = ':'
  · subst hcolon
    exact .inside .colon hread
  rw [if_neg (by simpa using hcolon)]
  by_cases hquote : isQuote c
  · rw [if_pos hquote]
    exact .inside (.text hquote (by simp)) hread
  rw [if_neg hquote]
  by_cases hsymbol : c ∈ ['\x7b', '\x7d', ';', '(', ')', '.', ',']
  · have hfixed : ∀ d ∈ ['\x7b', '\x7d', ';', '(', ')', '.', ','],
        ([d], Category.symbol) ∈ fixedLexemes ∧ d ∉ [':', '<', '>'] := by simp [fixedLexemes]
    obtain ⟨hmem, hshort⟩ := hfixed c hsymbol
    rw [if_pos hsymbol]
    exact complete_keepsTo hread (.single_of_notMem hmem hshort)
  rw [if_neg hsymbol]
  by_cases harithmetic : c ∈ ['+', '-', '*']
  · have hfixed : ∀ d ∈ ['+', '-', '*'],
        ([d], Category.arithmeticOperator) ∈ fixedLexemes ∧ d ∉ [':', '<', '>'] := by
      simp [fixedLexemes]
    obtain ⟨hmem, hshort⟩ := hfixed c harithmetic
    rw [if_pos harithmetic]
    exact complete_keepsTo hread (.single_of_notMem hmem hshort)
  rw [if_neg harithmetic]
  by_cases hrelational : c ∈ ['<', '>']
  · rw [if_pos hrelational]
    exact .inside (.relational hrelational) hread
  rw [if_neg hrelational]
  by_cases hequal : c = '='
  · subst hequal
    exact complete_keepsTo hread (.single_of_notMem (by decide) (by decide))
  rw [if_neg (by simpa using hequal)]
  refine hread.next_eq (.stray c) (.stray (by simp [hword, hquote]) ?_)
  simp_all [fixedLexemes]

/-! ### Steps and runs -/

theorem step_initial (hskip : r.cursor.skipBlanks = start.skipBlanks) :
    (step ⟨.initial, lexeme, r⟩).KeepsTo start := by
  obtain ⟨⟨l, cs⟩, previous⟩ := r
  cases cs with
  | nil =>
      have hfront : start.skipBlanks = ⟨l, []⟩ := hskip.symm
      show start.next = _
      rw [Cursor.next_of_rest_nil (congrArg Cursor.rest hfront), hfront]
      rfl
  | cons c cs => exact startStep_keepsTo hskip

theorem step_keepsTo {m : Machine} (h : m.Follows start) : m.step.KeepsTo start := by
  cases h with
  | between hskip => exact step_initial hskip
  | inside hholds hread =>
      cases hholds with
      | word hdigit hcs => exact step_word hdigit hcs hread
      | integer hne hdigits => exact step_integer hne hdigits hread
      | fraction hne hwhole hdigits => exact step_fraction hne hwhole hdigits hread
      | relational hc => exact step_relational hc hread
      | colon => exact step_colon hread
      | text hquote hbody => exact step_text hquote hbody hread

/-- From in front of the next lexeme or inside of it, a run answers what is read next. -/
theorem run_eq_next {m : Machine} (h : m.Follows start) :
    start.next = (m.run.1, m.run.2.cursor) := by
  induction m using run.induct with
  | case1 m n hstep ih =>
      have hkeeps := step_keepsTo h
      rw [hstep] at hkeeps
      rw [run, hstep]
      exact ih hkeeps
  | case2 m reading after hstep =>
      have hkeeps := step_keepsTo h
      rw [hstep] at hkeeps
      rw [run, hstep]
      exact hkeeps

end Machine

namespace Reader

/-- **The machine reads what the cursor reads**, and stands behind it. -/
theorem next_eq (r : Reader) : r.cursor.next = (r.next.1, r.next.2.cursor) :=
  Machine.run_eq_next (.between rfl)

/-- The answers of the machine to some calls, one after the other, and the reader after them. -/
def readings : Nat → Reader → List Reading × Reader
  | 0, r => ([], r)
  | n + 1, r => (r.next.1 :: (readings n r.next.2).1, (readings n r.next.2).2)

/-- Called again and again, also after faults, the machine answers as a scanner does. -/
theorem calls_eq_readings (n : Nat) (r : Reader) (registry : Registry) :
    (Scanner.calls n ⟨r.cursor, registry⟩).1 = (readings n r).1 ∧
      (Scanner.calls n ⟨r.cursor, registry⟩).2.cursor = (readings n r).2.cursor := by
  induction n generalizing r registry with
  | zero => exact ⟨rfl, rfl⟩
  | succ n ih =>
      obtain ⟨hreadings, hcursor⟩ := ih r.next.2 (registry.record r.next.1)
      have hcall : Scanner.call ⟨r.cursor, registry⟩ =
          (r.next.1, ⟨r.next.2.cursor, registry.record r.next.1⟩) := by
        rw [Scanner.call, r.next_eq]
      rw [Scanner.calls, hcall, hreadings, hcursor]
      exact ⟨rfl, rfl⟩

end Reader

end MiniPascal
