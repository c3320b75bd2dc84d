import Mathlib.Data.List.Basic
import MiniPascal.Proofs.ExpressionParsing
import MiniPascal.Proofs.LayoutScanning
import MiniPascal.Proofs.LexemeReading
import MiniPascal.Proofs.Phrases

/-!
# Layouts without one pair of parentheses

Every pair of parentheses in a layout stands around an operand (`exists_opens`).
Without the pair the layout still scans, and the outermost operators of everything
around the pair keep their places; so the text is read as the same expression if
and only if the operand alone is a phrase of the layer where it stands
(`Opens.derives_iff`).  Only behind a sign does the grammar allow more than the
layout uses: there it would take a product without parentheses.
-/

namespace MiniPascal

/-- The text of a parenthesis that opens, if it is needed. -/
def openingText (needed : Bool) : List Char :=
  if needed then ['('] else []

/-- The text of a parenthesis that closes, if it is needed. -/
def closingText (needed : Bool) : List Char :=
  if needed then [')'] else []

/-- An operator as it stands between operands. -/
def BinaryOperator.spaced (op : BinaryOperator) : List Char :=
  ' ' :: (op.spelling.toList ++ [' '])

namespace Expression

open Terminal (AreBalanced)

theorem toList_parenthesize (needed : Bool) (text : String) :
    (parenthesize needed text).toList =
      openingText needed ++ (text.toList ++ closingText needed) := by
  cases needed <;> simp [parenthesize, openingText, closingText]

/-- The operand needs parentheses to be a phrase of the layer. -/
def needsParensAt (layer : Layer) (e : Expression) : Bool :=
  decide (e.rank < layer.rank)

/-- The text of an operand that has to be a phrase of the layer. -/
def textAt (layer : Layer) (e : Expression) : List Char :=
  (parenthesize (e.needsParensAt layer) e.layout).toList

/-- The terminals of an operand that has to be a phrase of the layer. -/
def terminalsAt (layer : Layer) (e : Expression) : List Terminal :=
  parenthesizeTerminals (e.needsParensAt layer) e.terminals

theorem layout_signed (sign : Sign) (operand : Expression) :
    (signed sign operand).layout.toList = sign.spelling.toList ++ operand.textAt .factor := by
  rw [layout, String.toList_append]
  rfl

theorem layout_binary (op : BinaryOperator) (lhs rhs : Expression) :
    (binary op lhs rhs).layout.toList =
      lhs.textAt op.leftLayer ++ (op.spaced ++ rhs.textAt op.rightLayer) := by
  obtain ⟨hleft, hright⟩ := needsParens_eq op lhs rhs
  simp [layout, hleft, hright, textAt, needsParensAt, BinaryOperator.spaced]

theorem terminals_binary (op : BinaryOperator) (lhs rhs : Expression) :
    (binary op lhs rhs).terminals =
      lhs.terminalsAt op.leftLayer ++ .operator op :: rhs.terminalsAt op.rightLayer := by
  obtain ⟨hleft, hright⟩ := needsParens_eq op lhs rhs
  rw [terminals, hleft, hright]
  rfl

theorem derives_terminalsAt {e : Expression} (hspelled : e.isWellSpelled = true) (layer : Layer) :
    e.Derives layer (e.terminalsAt layer) :=
  derives_parenthesizeTerminals (derives_terminals hspelled) layer

/-- An expression with one operand left out. -/
inductive Frame where
  | signed (sign : Sign)
  | left (op : BinaryOperator) (rhs : Expression)
  | right (op : BinaryOperator) (lhs : Expression)

namespace Frame

/-- Put an operand in. -/
def plug : Frame → Expression → Expression
  | .signed sign, e => .signed sign e
  | .left op rhs, e => .binary op e rhs
  | .right op lhs, e => .binary op lhs e

/-- The layer that the layout makes the operand a phrase of. -/
def layoutLayer : Frame → Layer
  | .signed _ => .factor
  | .left op _ => op.leftLayer
  | .right op _ => op.rightLayer

/-- The layer that the grammar wants the operand to be a phrase of. -/
def layer : Frame → Layer
  | .signed _ => .term
  | .left op _ => op.leftLayer
  | .right op _ => op.rightLayer

/-- The text in front of the operand. -/
def before : Frame → List Char
  | .signed sign => sign.spelling.toList
  | .left _ _ => []
  | .right op lhs => lhs.textAt op.leftLayer ++ op.spaced

/-- The text behind the operand. -/
def behind : Frame → List Char
  | .signed _ => []
  | .left op rhs => op.spaced ++ rhs.textAt op.rightLayer
  | .right _ _ => []

/-- The terminals around those of the operand. -/
def around : Frame → List Terminal → List Terminal
  | .signed sign, ts => .operator sign.operator :: ts
  | .left op rhs, ts => ts ++ .operator op :: rhs.terminalsAt op.rightLayer
  | .right op lhs, ts => lhs.terminalsAt op.leftLayer ++ .operator op :: ts

end Frame

/-- `before`, then `x` in parentheses, and then `behind` is the layout of `e`.  Without the
parentheses `ts` are its terminals. -/
inductive Opens : Expression → List Char → Expression → List Char → List Terminal → Prop
  | operand (f : Frame) {x : Expression} (hx : x.needsParensAt f.layoutLayer = true) :
      Opens (f.plug x) f.before x f.behind (f.around x.terminals)
  | inside (f : Frame) {e x : Expression} {before behind : List Char} {ts : List Terminal}
      (h : Opens e before x behind ts) :
      Opens (f.plug e) (f.before ++ (openingText (e.needsParensAt f.layoutLayer) ++ before)) x
        (behind ++ (closingText (e.needsParensAt f.layoutLayer) ++ f.behind))
        (f.around (parenthesizeTerminals (e.needsParensAt f.layoutLayer) ts))

/-! ### The pairs of a layout -/

/-- The text closes the parentheses that it opens, and no others. -/
abbrev IsClosed (cs : List Char) : Prop :=
  IsBalanced '(' ')' cs

theorem isClosed_textAt {e : Expression} (h : IsClosed e.layout.toList) (layer : Layer) :
    IsClosed (e.textAt layer) := by
  cases hneeded : e.needsParensAt layer with
  | false => simpa [textAt, hneeded, parenthesize] using h
  | true => simpa [textAt, hneeded, parenthesize] using h.enclosed (by decide)

theorem isClosed_spaced (op : BinaryOperator) : IsClosed op.spaced := by
  cases op <;> decide

theorem isClosed_spelling (sign : Sign) : IsClosed sign.spelling.toList := by
  cases sign <;> decide

theorem isClosed_layout {e : Expression} (hspelled : e.isWellSpelled = true) :
    IsClosed e.layout.toList := by
  induction e with
  | number kind numeral =>
      exact .of_notMem (notMem_of_admits hspelled (by decide) (by decide))
        (notMem_of_admits hspelled (by decide) (by decide))
  | ident name =>
      exact .of_notMem (notMem_of_isName hspelled (by decide))
        (notMem_of_isName hspelled (by decide))
  | signed sign operand ih =>
      rw [layout_signed]
      exact (isClosed_spelling sign).append_iff.2 (isClosed_textAt (ih hspelled) .factor)
  | binary op lhs rhs ihl ihr =>
      obtain ⟨hl, hr⟩ : lhs.isWellSpelled = true ∧ rhs.isWellSpelled = true := by
        simpa [isWellSpelled] using hspelled
      rw [layout_binary]
      have hrest := (isClosed_spaced op).append_iff.2 (isClosed_textAt (ihr hr) op.rightLayer)
      exact (isClosed_textAt (ihl hl) op.leftLayer).append_iff.2 hrest

/-- Every pair in the layout of the expression stands around an operand. -/
def HasOpened (e : Expression) : Prop :=
  ∀ before inside behind : List Char, IsPair '(' ')' e.layout.toList before inside behind →
    ∃ x ts, Opens e before x behind ts ∧ inside = x.layout.toList

/-- A pair in the text of an operand stands around the operand or inside it. -/
theorem HasOpened.plug {e : Expression} (hspelled : e.isWellSpelled = true) (he : e.HasOpened)
    (f : Frame) {before inside behind : List Char}
    (h : IsPair '(' ')' (e.textAt f.layoutLayer) before inside behind) :
    ∃ x ts, Opens (f.plug e) (f.before ++ before) x (behind ++ f.behind) ts ∧
      inside = x.layout.toList := by
  cases hneeded : e.needsParensAt f.layoutLayer with
  | false =>
      rw [textAt, hneeded] at h
      obtain ⟨x, ts, hopens, rfl⟩ := he _ _ _ h
      have hinside := Opens.inside f hopens
      rw [hneeded] at hinside
      exact ⟨x, _, hinside, rfl⟩
  | true =>
      have htext : e.textAt f.layoutLayer = '(' :: (e.layout.toList ++ [')']) := by
        simp [textAt, hneeded, parenthesize]
      rw [htext] at h
      obtain ⟨rfl, rfl, rfl⟩ | ⟨before', behind', hpair, rfl, rfl⟩ :=
        h.of_enclosed (by decide) (isClosed_layout hspelled)
      · exact ⟨e, _, by simpa using Opens.operand f hneeded, rfl⟩
      · obtain ⟨x, ts, hopens, rfl⟩ := he _ _ _ hpair
        have hinside := Opens.inside f hopens
        rw [hneeded] at hinside
        exact ⟨x, _, by simpa [openingText, closingText] using hinside, rfl⟩

theorem not_isPair_of_notMem {text before inside behind : List Char} (h : '(' ∉ text) :
    ¬ IsPair '(' ')' text before inside behind := by
  rintro ⟨rfl, -⟩
  exact h (by simp)

theorem exists_opens {e : Expression} (hspelled : e.isWellSpelled = true) : e.HasOpened := by
  induction e with
  | number kind numeral =>
      intro before inside behind h
      exact absurd h (not_isPair_of_notMem (notMem_of_admits hspelled (by decide) (by decide)))
  | ident name =>
      intro before inside behind h
      exact absurd h (not_isPair_of_notMem (notMem_of_isName hspelled (by decide)))
  | signed sign operand ih =>
      intro before inside behind h
      rw [layout_signed] at h
      have hoperand : operand.isWellSpelled = true := hspelled
      obtain ⟨_, hpair, -⟩ | ⟨before', hpair, rfl⟩ := h.of_append (isClosed_spelling sign)
      · exact absurd hpair (not_isPair_of_notMem (by cases sign <;> decide))
      · simpa [Frame.plug, Frame.before, Frame.behind] using
          HasOpened.plug hoperand (ih hoperand) (.signed sign) hpair
  | binary op lhs rhs ihl ihr =>
      intro before inside behind h
      obtain ⟨hl, hr⟩ : lhs.isWellSpelled = true ∧ rhs.isWellSpelled = true := by
        simpa [isWellSpelled] using hspelled
      rw [layout_binary] at h
      obtain ⟨behind', hpair, rfl⟩ | ⟨before', hrest, rfl⟩ :=
        h.of_append (isClosed_textAt (isClosed_layout hl) op.leftLayer)
      · exact HasOpened.plug hl (ihl hl) (.left op rhs) hpair
      · obtain ⟨_, hpair, -⟩ | ⟨before'', hpair, rfl⟩ := hrest.of_append (isClosed_spaced op)
        · exact absurd hpair (not_isPair_of_notMem (by cases op <;> decide))
        · simpa [Frame.plug, Frame.before, Frame.behind] using
            HasOpened.plug hr (ihr hr) (.right op lhs) hpair

/-! ### What is left without a pair -/

namespace Frame

theorem isWellSpelled_of_plug {f : Frame} {e : Expression}
    (hspelled : (f.plug e).isWellSpelled = true) : e.isWellSpelled = true := by
  cases f with
  | signed sign => exact hspelled
  | left op rhs => exact (Bool.and_eq_true_iff.1 hspelled).1
  | right op lhs => exact (Bool.and_eq_true_iff.1 hspelled).2

theorem layer_le (f : Frame) : f.layer.rank ≤ f.layoutLayer.rank := by
  cases f with
  | signed => exact Nat.le_succ 3
  | left | right => exact Nat.le_refl _

/-- Only numbers and names are factors without parentheses. -/
theorem rank_plug_lt (f : Frame) (e : Expression) : (f.plug e).rank < Layer.factor.rank := by
  have hop : ∀ op : BinaryOperator, op.precedence < Layer.factor.rank := by
    intro op
    cases op <;> decide
  cases f with
  | signed =>
      show 2 < 4
      decide
  | left op | right op => exact hop op

/-- A frame puts its operand between terminals that keep its extent. -/
theorem hasExtent_around {f : Frame} {e : Expression} {ts : List Terminal}
    (hspelled : (f.plug e).isWellSpelled = true) (hts : e.HasExtent ts) :
    (f.plug e).HasExtent (f.around ts) := by
  cases f with
  | signed sign => exact hts.signed (Terminal.operator_denotes sign.operator).isBare
  | left op rhs =>
      have hrhs := derives_terminalsAt (Bool.and_eq_true_iff.1 hspelled).2 op.rightLayer
      exact hts.binary (Terminal.operator_denotes op).isBare hrhs.hasExtent
  | right op lhs =>
      have hlhs := derives_terminalsAt (Bool.and_eq_true_iff.1 hspelled).1 op.leftLayer
      exact hlhs.hasExtent.binary (Terminal.operator_denotes op).isBare hts

/-- In a frame, what has the extent of the operand is read as the operand if it is a phrase of the
layer there. -/
theorem derives_around_iff {f : Frame} {e : Expression} {ts : List Terminal} {layer : Layer}
    (hspelled : (f.plug e).isWellSpelled = true) (hlayer : layer.rank ≤ (f.plug e).rank)
    (hts : e.HasExtent ts) : (f.plug e).Derives layer (f.around ts) ↔ e.Derives f.layer ts := by
  cases f with
  | signed sign => exact derives_signed_iff (Terminal.operator_denotes sign.operator) hlayer
  | left op rhs =>
      have hrhs := derives_terminalsAt (Bool.and_eq_true_iff.1 hspelled).2 op.rightLayer
      rw [around, plug, derives_binary_iff (Terminal.operator_denotes op) hlayer hts]
      exact and_iff_left hrhs
  | right op lhs =>
      have hlhs := derives_terminalsAt (Bool.and_eq_true_iff.1 hspelled).1 op.leftLayer
      rw [around, plug, derives_binary_iff (Terminal.operator_denotes op) hlayer hlhs.hasExtent]
      exact and_iff_right hlhs

end Frame

/-- The text ends in a sign. -/
def endsInSign (cs : List Char) : Bool :=
  cs.getLast?.any fun c => c == '+' || c == '-'

theorem endsInSign_append_of_ne_nil {ds : List Char} (h : ds ≠ []) (cs : List Char) :
    endsInSign (cs ++ ds) = endsInSign ds := by
  rw [endsInSign, List.getLast?_append_of_ne_nil cs h, endsInSign]

theorem endsInSign_spelling (sign : Sign) : endsInSign sign.spelling.toList = true := by
  cases sign <;> decide

theorem endsInSign_spaced (op : BinaryOperator) : endsInSign op.spaced = false := by
  cases op <;> decide

/-- An operand that the layout encloses without need is a product behind a sign. -/
theorem Frame.layer_le_rank_iff (f : Frame) {e : Expression}
    (h : e.needsParensAt f.layoutLayer = true) :
    f.layer.rank ≤ e.rank ↔ endsInSign f.before = true ∧ e.rank = 3 := by
  have hrank : e.rank < f.layoutLayer.rank := of_decide_eq_true h
  cases f with
  | signed sign =>
      have hterm : e.rank < 4 := hrank
      have hcases : 3 ≤ e.rank ↔ e.rank = 3 := by omega
      simpa [before, endsInSign_spelling, layer, Layer.rank] using hcases
  | left op rhs => exact iff_of_false (Nat.not_le.2 hrank) (by simp [before, endsInSign])
  | right op lhs =>
      have hspaced : op.spaced ≠ [] := List.cons_ne_nil _ _
      rw [before, endsInSign_append_of_ne_nil hspaced, endsInSign_spaced]
      exact iff_of_false (Nat.not_le.2 hrank) (by simp)

/-- In front of an operand without parentheses stands a sign only if it is a number or a name. -/
theorem Frame.endsInSign_before {f : Frame} {e : Expression} (he : e.rank < Layer.factor.rank)
    (h : e.needsParensAt f.layoutLayer = false) : endsInSign f.before = false := by
  cases f with
  | signed sign => exact absurd he (of_decide_eq_false h)
  | left op rhs => rfl
  | right op lhs =>
      have hspaced : op.spaced ≠ [] := List.cons_ne_nil _ _
      rw [before, endsInSign_append_of_ne_nil hspaced, endsInSign_spaced]

namespace Opens

variable {e x : Expression} {before behind : List Char} {ts : List Terminal}

theorem isWellSpelled (h : Opens e before x behind ts) (hspelled : e.isWellSpelled = true) :
    x.isWellSpelled = true := by
  induction h with
  | operand f hx => exact Frame.isWellSpelled_of_plug hspelled
  | inside f h ih => exact ih (Frame.isWellSpelled_of_plug hspelled)

/-- The terminals keep their extent without a pair of parentheses. -/
theorem hasExtent (h : Opens e before x behind ts) (hspelled : e.isWellSpelled = true) :
    e.HasExtent ts := by
  induction h with
  | operand f hx =>
      exact f.hasExtent_around hspelled (hasExtent_terminals (Frame.isWellSpelled_of_plug hspelled))
  | inside f h ih =>
      exact f.hasExtent_around hspelled ((ih (Frame.isWellSpelled_of_plug hspelled)).parenthesize _)

theorem rank_lt (h : Opens e before x behind ts) : e.rank < Layer.factor.rank := by
  cases h with
  | operand f => exact f.rank_plug_lt _
  | inside f => exact f.rank_plug_lt _

/-- What stands in front of an operand ends in a sign if and only if the operand is that of a
sign, however deep it lies. -/
theorem endsInSign_inside (h : Opens e before x behind ts) (f : Frame) :
    endsInSign (f.before ++ (openingText (e.needsParensAt f.layoutLayer) ++ before)) =
      endsInSign before := by
  by_cases hbefore : before = []
  · -- the pair begins the text of `e`, which is in parentheses itself or stands behind no sign
    subst hbefore
    cases hneeded : e.needsParensAt f.layoutLayer with
    | true =>
        have hne : openingText true ++ [] ≠ [] := List.cons_ne_nil _ _
        rw [endsInSign_append_of_ne_nil hne]
        rfl
    | false =>
        rw [openingText, if_neg Bool.false_ne_true, List.append_nil, List.append_nil,
          f.endsInSign_before h.rank_lt hneeded]
        rfl
  · have hopening : openingText (e.needsParensAt f.layoutLayer) ++ before ≠ [] := by
      simp [hbefore]
    rw [endsInSign_append_of_ne_nil hopening, endsInSign_append_of_ne_nil hbefore]

/-- Without the pair the terminals are read as the same expression if and only if the pair stood
between a sign and a product. -/
theorem derives_iff (h : Opens e before x behind ts) (hspelled : e.isWellSpelled = true)
    {layer : Layer} (hlayer : layer.rank ≤ e.rank) :
    e.Derives layer ts ↔ endsInSign before = true ∧ x.rank = 3 := by
  induction h generalizing layer with
  | @operand f x hx =>
      have hx' := Frame.isWellSpelled_of_plug hspelled
      rw [f.derives_around_iff hspelled hlayer (hasExtent_terminals hx'),
        derives_terminals_iff hx']
      exact f.layer_le_rank_iff hx
  | @inside f e x before behind ts h ih =>
      have he := Frame.isWellSpelled_of_plug hspelled
      have hextent := h.hasExtent he
      rw [f.derives_around_iff hspelled hlayer (hextent.parenthesize _), h.endsInSign_inside f]
      cases hneeded : e.needsParensAt f.layoutLayer with
      | true =>
          exact (derives_parens_iff hextent.balanced).trans (ih he e.whole_rank_le)
      | false =>
          have hrank := Nat.le_of_not_lt (of_decide_eq_false hneeded)
          exact ih he (Nat.le_trans f.layer_le hrank)

end Opens

/-! ### Scanning the text again -/

/-- The text is scanned to the terminals in front of everything that does not carry it on. -/
def ScansInFront (cs : List Char) (ts : List Terminal) : Prop :=
  ∀ (rest : List Char) (us : List Terminal), isBoundary rest = true → Scans rest us →
    Scans (cs ++ rest) (ts ++ us)

theorem scansInFront_layout {e : Expression} (hspelled : e.isWellSpelled = true) :
    ScansInFront e.layout.toList e.terminals :=
  fun _ _ => scans_layout hspelled

theorem scansInFront_textAt {e : Expression} (hspelled : e.isWellSpelled = true) (layer : Layer) :
    ScansInFront (e.textAt layer) (e.terminalsAt layer) :=
  fun _ _ => scans_parenthesize _ (scansInFront_layout hspelled)

theorem ScansInFront.parenthesize {cs : List Char} {ts : List Terminal} (h : ScansInFront cs ts)
    (needed : Bool) :
    ScansInFront (openingText needed ++ (cs ++ closingText needed))
      (parenthesizeTerminals needed ts) := by
  have htext : ScansInFront (String.ofList cs).toList ts := by simpa using h
  intro rest us hrest hus
  have hscans := scans_parenthesize needed htext hrest hus
  rwa [toList_parenthesize, String.toList_ofList] at hscans

theorem Frame.scansInFront {f : Frame} {e : Expression} (hspelled : (f.plug e).isWellSpelled = true)
    {cs : List Char} {ts : List Terminal} (h : ScansInFront cs ts) :
    ScansInFront (f.before ++ (cs ++ f.behind)) (f.around ts) := by
  intro rest us hrest hus
  cases f with
  | signed sign => simpa [before, behind, around] using (h rest us hrest hus).sign sign
  | left op rhs =>
      have hrhs := scansInFront_textAt (Bool.and_eq_true_iff.1 hspelled).2 op.rightLayer
      have hop := ((hrhs rest us hrest hus).operator op).blank (c := ' ') rfl
      simpa [before, behind, around, BinaryOperator.spaced] using h _ _ rfl hop
  | right op lhs =>
      have hlhs := scansInFront_textAt (Bool.and_eq_true_iff.1 hspelled).1 op.leftLayer
      have hop := ((h rest us hrest hus).operator op).blank (c := ' ') rfl
      simpa [before, behind, around, BinaryOperator.spaced] using hlhs _ _ rfl hop

/-- Without the pair the text scans to the terminals that are left. -/
theorem Opens.scansInFront {e x : Expression} {before behind : List Char} {ts : List Terminal}
    (h : Opens e before x behind ts) (hspelled : e.isWellSpelled = true) :
    ScansInFront (before ++ (x.layout.toList ++ behind)) ts := by
  induction h with
  | operand f hx =>
      exact f.scansInFront hspelled (scansInFront_layout (Frame.isWellSpelled_of_plug hspelled))
  | @inside f e x before behind ts h ih =>
      have hinner := (ih (Frame.isWellSpelled_of_plug hspelled)).parenthesize
        (e.needsParensAt f.layoutLayer)
      simpa using f.scansInFront hspelled hinner

/-! ### Which pairs can be left out -/

/-- The text is that of the expression: it scans, and the expression is derived from its tokens,
however deep they are nested. -/
def IsReadFrom (e : Expression) (text : String) : Prop :=
  ∃ ts, scanText text = .ok ts ∧ e.Derives .whole (ts.map Token.terminal)

/-- The parser of expressions answers `e` for a whole text if and only if the text is that of `e` and
the levels of nesting suffice. -/
theorem expression_eq_ok_iff_isReadFrom {e : Expression} {text : String} {ts : List Token}
    (hscan : scanText text = .ok ts) :
    (∃ m, Parser.expression (.start ts) = (.ok e, m) ∧ m.rest = []) ↔
      e.IsReadFrom text ∧ e.levels (ts.map Token.terminal) ≤ maxDepth := by
  rw [Parser.expression_eq_ok_iff]
  simp [IsReadFrom, hscan]

/-- The text of an expression whose levels do not suffice is refused for its depth, and for no other
reason. -/
theorem IsReadFrom.refusedDepth {e : Expression} {text : String} {ts : List Token}
    (h : e.IsReadFrom text) (hscan : scanText text = .ok ts)
    (hlevels : ¬e.levels (ts.map Token.terminal) ≤ maxDepth) :
    Parser.RefusedDepth (Parser.expression (.start ts)) := by
  obtain ⟨us, hscan', hderives⟩ := h
  obtain rfl : ts = us := Except.ok.inj (hscan.symm.trans hscan')
  exact (Parser.reads_expression hderives).refused hlevels

theorem isReadFrom_iff_of_scans {e : Expression} {text : String} {ts : List Terminal}
    (h : Scans text.toList ts) : e.IsReadFrom text ↔ e.Derives .whole ts := by
  obtain ⟨tokens, hscan, rfl⟩ := h.scanText_eq_ok
  simp [IsReadFrom, hscan]

/-- The parentheses stand between a sign and a product. -/
def IsSignedProduct (before inside : List Char) : Prop :=
  endsInSign before = true ∧ ∃ op lhs rhs, op.isMultiplicative = true ∧
    (binary op lhs rhs).isWellSpelled = true ∧ inside = (binary op lhs rhs).layout.toList

theorem exists_binary_of_rank_eq_three {e : Expression} (h : e.rank = 3) :
    ∃ op lhs rhs, op.isMultiplicative = true ∧ e = binary op lhs rhs := by
  cases e with
  | number | ident | signed => exact absurd h (by simp [rank])
  | binary op lhs rhs =>
      have hop : op.isMultiplicative = true := by
        cases op <;> first | rfl | exact absurd h (by simp +decide [rank])
      exact ⟨op, lhs, rhs, hop, rfl⟩

/-- Only a product is laid out like a product. -/
theorem rank_eq_three_of_layout_eq {e lhs rhs : Expression} {op : BinaryOperator}
    (hspelled : e.isWellSpelled = true) (hproduct : (binary op lhs rhs).isWellSpelled = true)
    (hop : op.isMultiplicative = true)
    (h : e.layout.toList = (binary op lhs rhs).layout.toList) : e.rank = 3 := by
  have hscans := scans_layout hspelled rfl Scans.nil
  rw [h] at hscans
  have hterminals := hscans.unique (scans_layout hproduct rfl Scans.nil)
  rw [List.append_nil, List.append_nil] at hterminals
  have hrank : Layer.term.rank ≤ (binary op lhs rhs).rank :=
    Nat.le_of_eq (BinaryOperator.precedence_of_isMultiplicative hop).symm
  have hterm := derives_terminals hproduct .term hrank
  rw [← hterminals] at hterm
  -- a term has no sum and no comparison outside its parentheses, and it is longer than a leaf
  have hsize : e.size = lhs.size + rhs.size + 1 :=
    (hasExtent_terminals hspelled).count.symm.trans hterm.hasExtent.count
  have hpos := lhs.size_pos
  cases e with
  | number | ident =>
      rw [size] at hsize
      omega
  | signed sign operand =>
      have hnil : AreBalanced [] := IsBalanced.nil
      have hle := hterm.rank_le_precedence hnil (Terminal.operator_denotes sign.operator) rfl
      rw [sign.precedence_operator] at hle
      exact absurd hle (by decide)
  | binary op' l r =>
      obtain ⟨hl, -⟩ : l.isWellSpelled = true ∧ r.isWellSpelled = true := by
        simpa [isWellSpelled] using hspelled
      have hbalanced := (derives_terminalsAt hl op'.leftLayer).hasExtent.balanced
      rw [terminals_binary] at hterm
      have hle := hterm.rank_le_precedence hbalanced (Terminal.operator_denotes op') rfl
      exact Nat.le_antisymm op'.precedence_le_three hle

/-- A pair of parentheses in a layout can be left out if and only if it stands between a sign and
a product. -/
theorem isReadFrom_without_pair_iff {e : Expression} (hspelled : e.isWellSpelled = true)
    {before inside behind : List Char}
    (hpair : IsPair '(' ')' e.layout.toList before inside behind) :
    e.IsReadFrom (String.ofList (before ++ inside ++ behind)) ↔ IsSignedProduct before inside := by
  obtain ⟨x, ts, hopens, rfl⟩ := exists_opens hspelled _ _ _ hpair
  have hscans : Scans (String.ofList (before ++ x.layout.toList ++ behind)).toList ts := by
    simpa using hopens.scansInFront hspelled [] [] rfl Scans.nil
  rw [isReadFrom_iff_of_scans hscans, hopens.derives_iff hspelled e.whole_rank_le]
  refine and_congr_right fun _ => ⟨fun hrank => ?_, ?_⟩
  · obtain ⟨op, lhs, rhs, hop, rfl⟩ := exists_binary_of_rank_eq_three hrank
    exact ⟨op, lhs, rhs, hop, hopens.isWellSpelled hspelled, rfl⟩
  · rintro ⟨op, lhs, rhs, hop, hproduct, hlayout⟩
    exact rank_eq_three_of_layout_eq (hopens.isWellSpelled hspelled) hproduct hop hlayout

/-- A product with a sum in it, behind a sign. -/
def negatedProduct : Expression :=
  .signed .minus (.binary .mul (.binary .add (.ident "a") (.ident "b")) (.ident "c"))

/-- The pair around the sum is needed, though it opens directly behind one that is not. -/
theorem isReadFrom_without_pair_negatedProduct :
    negatedProduct.isWellSpelled = true ∧
      IsPair '(' ')' negatedProduct.layout.toList "-(".toList "a + b".toList " * c)".toList ∧
      ¬ negatedProduct.IsReadFrom "-(a + b * c)" := by
  have hspelled : negatedProduct.isWellSpelled = true := by decide
  have hpair : IsPair '(' ')' negatedProduct.layout.toList "-(".toList "a + b".toList
      " * c)".toList := by decide
  refine ⟨hspelled, hpair, fun h => ?_⟩
  have hsigned := (isReadFrom_without_pair_iff hspelled hpair).1 h
  exact absurd hsigned.1 (by decide)

/-- Without the pair between a sign and a product the text is read as the same expression. -/
theorem layout_signed_product_has_needless_pair :
    (signed .minus (.binary .mul (.ident "a") (.ident "b"))).isWellSpelled = true ∧
      IsPair '(' ')' (signed .minus (.binary .mul (.ident "a") (.ident "b"))).layout.toList
        ['-'] "a * b".toList [] ∧
      (signed .minus (.binary .mul (.ident "a") (.ident "b"))).IsReadFrom "-a * b" := by
  have hscan : scanText "-a * b" = .ok [⟨.arithmeticOperator, "-", 1, 1⟩, ⟨.identifier, "a", 1, 2⟩,
      ⟨.arithmeticOperator, "*", 1, 4⟩, ⟨.identifier, "b", 1, 6⟩] := by decide +kernel
  have hparse : Parser.expression (.start [⟨.arithmeticOperator, "-", 1, 1⟩, ⟨.identifier, "a", 1, 2⟩,
      ⟨.arithmeticOperator, "*", 1, 4⟩, ⟨.identifier, "b", 1, 6⟩]) =
      (.ok (signed .minus (.binary .mul (.ident "a") (.ident "b"))),
        ⟨[], some ⟨.identifier, "b", 1, 6⟩, 2⟩) := by rfl
  exact ⟨by decide, by decide,
    ((expression_eq_ok_iff_isReadFrom hscan).1 ⟨_, hparse, rfl⟩).1⟩

end Expression

end MiniPascal
