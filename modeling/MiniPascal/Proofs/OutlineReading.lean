import Mathlib.Data.List.Basic
import MiniPascal.Proofs.OutlineRows
import MiniPascal.Proofs.ParsedLayout

/-!
# Reading outlines

Nothing in an outline says where a part ends, except the row behind it.  An expression
ends by the number of its operands.  A list of statements ends in front of a row that is
less deep, a conditional without an alternative in front of every row of its depth that
is no `else`, and a run of declarations in front of one that declares nothing
(`Statement.StopsAt`).  The parts of a parsed program end so, and then its rows can be
read in one way.
-/

namespace MiniPascal

/-! ### Expressions and declarations -/

/-- The rows of an expression say where it ends. -/
theorem Expression.rows_append_inj {e f : Expression} {depth : Nat} {behind behind' : List Row}
    (h : e.rows depth ++ behind = f.rows depth ++ behind') : e = f ∧ behind = behind' := by
  induction e generalizing f depth behind behind' with
  | number kind numeral => cases f <;> simp_all [rows]
  | ident name => cases f <;> simp_all [rows]
  | signed sign operand ih =>
      cases f with
      | signed sign' operand' =>
          obtain ⟨rfl, hoperand⟩ : sign = sign' ∧ operand.rows (depth + 1) ++ behind =
              operand'.rows (depth + 1) ++ behind' := by simpa [rows] using h
          obtain ⟨rfl, rfl⟩ := ih hoperand
          exact ⟨rfl, rfl⟩
      | _ => simp [rows] at h
  | binary op lhs rhs ihl ihr =>
      cases f with
      | binary op' lhs' rhs' =>
          obtain ⟨rfl, hlhs⟩ : op = op' ∧
              lhs.rows (depth + 1) ++ (rhs.rows (depth + 1) ++ behind) =
                lhs'.rows (depth + 1) ++ (rhs'.rows (depth + 1) ++ behind') := by
            simpa [rows] using h
          obtain ⟨rfl, hrhs⟩ := ihl hlhs
          obtain ⟨rfl, rfl⟩ := ihr hrhs
          exact ⟨rfl, rfl⟩
      | _ => simp [rows] at h

/-- The rows of declarations end in front of a row that declares nothing. -/
theorem Declaration.rowsAll_append_inj {ds es : List Declaration} {depth : Nat}
    {behind behind' : List Row} (hends : ∀ row ∈ behind.head?, ∀ d, row ≠ ⟨depth, .declaration d⟩)
    (hends' : ∀ row ∈ behind'.head?, ∀ d, row ≠ ⟨depth, .declaration d⟩)
    (h : rowsAll depth ds ++ behind = rowsAll depth es ++ behind') :
    ds = es ∧ behind = behind' := by
  induction ds generalizing es with
  | nil =>
      cases es with
      | nil => exact ⟨rfl, h⟩
      | cons e es =>
          obtain rfl : behind = rowsAll depth (e :: es) ++ behind' := h
          exact absurd rfl (hends _ rfl e)
  | cons d ds ih =>
      cases es with
      | nil =>
          obtain rfl : rowsAll depth (d :: ds) ++ behind = behind' := h
          exact absurd rfl (hends' _ rfl d)
      | cons e es =>
          obtain ⟨rfl, hothers⟩ : d = e ∧
              rowsAll depth ds ++ behind = rowsAll depth es ++ behind' := by
            simpa [rowsAll] using h
          obtain ⟨rfl, rfl⟩ := ih hothers
          exact ⟨rfl, rfl⟩

/-! ### Statements -/

namespace Statement

/-- What the first row of a statement says; a run of declarations is never empty. -/
def opening : Statement → Entry
  | .assign target _ => .assign target
  | .declare [] => .keyword "var"
  | .declare (d :: _) => .declaration d
  | .compound _ => .keyword "begin"
  | .ifThen .. | .ifThenElse .. => .keyword "if"
  | .whileDo .. => .keyword "while"

theorem exists_rows_eq {s : Statement} (h : s.isWellSpelled = true) (depth : Nat) :
    ∃ later, s.rows depth = ⟨depth, s.opening⟩ :: later := by
  cases s with
  | declare ds =>
      cases ds with
      | nil => simp [isWellSpelled] at h
      | cons d ds => exact ⟨_, rfl⟩
  | _ => exact ⟨_, rfl⟩

theorem opening_ne_else (s : Statement) : s.opening ≠ .keyword "else" := by
  cases s with
  | declare ds => cases ds <;> simp [opening]
  | _ => simp [opening]

theorem startsWithDeclarations_of_opening {s : Statement} {d : Declaration}
    (h : s.opening = .declaration d) (ss : List Statement) :
    startsWithDeclarations (s :: ss) = true := by
  cases s with
  | declare ds => rfl
  | _ => simp [opening] at h

/-- A row that carries no part of the statement on: it is no deeper, is not its alternative, and
is none of the declarations at its end. -/
structure StopsAt (s : Statement) (depth : Nat) (row : Row) : Prop where
  depth_le : row.depth ≤ depth
  ne_else : row ≠ ⟨depth, .keyword "else"⟩
  ne_declaration : s.endsInDeclarations = true → ∀ d, row ≠ ⟨depth, .declaration d⟩

theorem StopsAt.of_lt {s : Statement} {depth : Nat} {row : Row} (h : row.depth < depth) :
    s.StopsAt depth row where
  depth_le := h.le
  ne_else := by rintro rfl; exact h.false
  ne_declaration := by rintro - d rfl; exact h.false

/-- A statement stops at the next one of its list. -/
theorem StopsAt.opening {s t : Statement} {ss : List Statement}
    (h : (s.endsInDeclarations && startsWithDeclarations (t :: ss)) = false) (depth : Nat) :
    s.StopsAt depth ⟨depth, t.opening⟩ where
  depth_le := le_rfl
  ne_else := fun hrow => t.opening_ne_else (Row.mk.inj hrow).2
  ne_declaration := by
    intro hends d hrow
    have hstarts := startsWithDeclarations_of_opening (Row.mk.inj hrow).2 ss
    simp [hends, hstarts] at h

/-- The rows begin with a statement, which stops at the rows behind it. -/
structure Begins (s : Statement) (depth : Nat) (rows behind : List Row) : Prop where
  spelled : s.isWellSpelled = true
  unambiguous : s.isUnambiguous = true
  stops : ∀ row ∈ behind.head?, s.StopsAt depth row
  eq : rows = s.rows depth ++ behind

/-- The rows begin with some statements, in front of a row that is less deep. -/
structure BeginAll (ss : List Statement) (depth : Nat) (rows behind : List Row) : Prop where
  spelled : areWellSpelled ss = true
  unambiguous : areUnambiguous ss = true
  stops : ∀ row ∈ behind.head?, row.depth < depth
  eq : rows = rowsAll depth ss ++ behind

variable {s t branch alternative body : Statement} {ss : List Statement} {condition : Expression}
  {depth : Nat} {rows behind behind' : List Row}

theorem Begins.head?_eq (h : s.Begins depth rows behind) :
    rows.head? = some ⟨depth, s.opening⟩ := by
  obtain ⟨later, hrows⟩ := exists_rows_eq h.spelled depth
  rw [h.eq, hrows]
  rfl

/-- The first rows of two statements are the same, where both begin the same rows. -/
theorem Begins.opening_eq (h : s.Begins depth rows behind) (h' : t.Begins depth rows behind') :
    s.opening = t.opening := by
  have hrow := Option.some.inj (h.head?_eq.symm.trans h'.head?_eq)
  exact congrArg Row.entry hrow

/-- The first of some statements stops at the next one. -/
theorem BeginAll.cons (h : BeginAll (s :: ss) depth rows behind) :
    ∃ later, s.Begins depth rows later ∧ BeginAll ss depth later behind := by
  obtain ⟨hspelled, hunambiguous, hstops, rfl⟩ := h
  obtain ⟨hs, hss⟩ := Bool.and_eq_true_iff.1 hspelled
  obtain ⟨hfirst, hothers⟩ := Bool.and_eq_true_iff.1 hunambiguous
  obtain ⟨hs', hapart⟩ := Bool.and_eq_true_iff.1 hfirst
  refine ⟨rowsAll depth ss ++ behind, ⟨hs, hs', fun row hrow => ?_, ?_⟩, hss, hothers, hstops, rfl⟩
  · cases ss with
    | nil => exact .of_lt (hstops row hrow)
    | cons t ss =>
        obtain ⟨ht, -⟩ := Bool.and_eq_true_iff.1 hss
        obtain ⟨later, hrows⟩ := exists_rows_eq ht depth
        obtain rfl : ⟨depth, t.opening⟩ = row := by simpa [rowsAll, hrows] using hrow
        exact .opening (by simpa only [Bool.not_eq_true'] using hapart) depth
  · simp [rowsAll]

theorem Begins.compound (h : (Statement.compound ss).Begins depth rows behind) :
    ∃ later, rows = ⟨depth, .keyword "begin"⟩ :: later ∧ BeginAll ss (depth + 1) later behind := by
  obtain ⟨hspelled, hunambiguous, hstops, rfl⟩ := h
  refine ⟨_, rfl, hspelled, hunambiguous, fun row hrow => ?_, rfl⟩
  exact Nat.lt_succ_of_le (hstops row hrow).depth_le

/-- A part that is one level deeper stops where the whole statement does. -/
theorem Begins.inner (hspelled : s.isWellSpelled = true) (hunambiguous : s.isUnambiguous = true)
    (hbehind : ∀ row ∈ behind.head?, t.StopsAt depth row) :
    s.Begins (depth + 1) (s.rows (depth + 1) ++ behind) behind where
  spelled := hspelled
  unambiguous := hunambiguous
  stops := fun row hrow => .of_lt (Nat.lt_succ_of_le (hbehind row hrow).depth_le)
  eq := rfl

theorem Begins.ifThen (h : (Statement.ifThen condition branch).Begins depth rows behind) :
    ∃ later, rows = ⟨depth, .keyword "if"⟩ ::
        (condition.rows (depth + 1) ++ ⟨depth, .keyword "then"⟩ :: later) ∧
      branch.Begins (depth + 1) later behind := by
  obtain ⟨hspelled, hunambiguous, hstops, rfl⟩ := h
  obtain ⟨-, hbranch⟩ := Bool.and_eq_true_iff.1 hspelled
  exact ⟨branch.rows (depth + 1) ++ behind, by simp [Statement.rows],
    .inner hbranch hunambiguous hstops⟩

theorem Begins.whileDo (h : (Statement.whileDo condition body).Begins depth rows behind) :
    ∃ later, rows = ⟨depth, .keyword "while"⟩ ::
        (condition.rows (depth + 1) ++ ⟨depth, .keyword "do"⟩ :: later) ∧
      body.Begins (depth + 1) later behind := by
  obtain ⟨hspelled, hunambiguous, hstops, rfl⟩ := h
  obtain ⟨-, hbody⟩ := Bool.and_eq_true_iff.1 hspelled
  exact ⟨body.rows (depth + 1) ++ behind, by simp [Statement.rows],
    .inner hbody hunambiguous hstops⟩

theorem Begins.ifThenElse
    (h : (Statement.ifThenElse condition branch alternative).Begins depth rows behind) :
    ∃ later last, rows = ⟨depth, .keyword "if"⟩ ::
        (condition.rows (depth + 1) ++ ⟨depth, .keyword "then"⟩ :: later) ∧
      branch.Begins (depth + 1) later (⟨depth, .keyword "else"⟩ :: last) ∧
      alternative.Begins (depth + 1) last behind := by
  obtain ⟨hspelled, hunambiguous, hstops, rfl⟩ := h
  obtain ⟨hconditional, halternative⟩ := Bool.and_eq_true_iff.1 hspelled
  obtain ⟨-, hbranch⟩ := Bool.and_eq_true_iff.1 hconditional
  obtain ⟨hfirst, halternative'⟩ := Bool.and_eq_true_iff.1 hunambiguous
  obtain ⟨-, hbranch'⟩ := Bool.and_eq_true_iff.1 hfirst
  refine ⟨branch.rows (depth + 1) ++ ⟨depth, .keyword "else"⟩ ::
      (alternative.rows (depth + 1) ++ behind), alternative.rows (depth + 1) ++ behind,
    by simp [Statement.rows], ⟨hbranch, hbranch', fun row hrow => ?_, rfl⟩,
    .inner halternative halternative' hstops⟩
  obtain rfl : ⟨depth, .keyword "else"⟩ = row := by simpa using hrow
  exact .of_lt (Nat.lt_succ_self depth)

/-- The rows in front of a branch or a body say what the condition is. -/
theorem header_inj {condition' : Expression} {opening closing : Entry} {later later' : List Row}
    (h : ⟨depth, opening⟩ :: (condition.rows (depth + 1) ++ ⟨depth, closing⟩ :: later) =
      ⟨depth, opening⟩ :: (condition'.rows (depth + 1) ++ ⟨depth, closing⟩ :: later')) :
    condition = condition' ∧ later = later' := by
  obtain ⟨rfl, hlater⟩ := Expression.rows_append_inj (List.tail_eq_of_cons_eq h)
  exact ⟨rfl, List.tail_eq_of_cons_eq hlater⟩

/-- A list of statements does not end in front of a further one. -/
theorem BeginAll.false_of_nil_of_cons (h : BeginAll [] depth rows behind)
    (h' : BeginAll (s :: ss) depth rows behind') : False := by
  obtain ⟨later, hs, -⟩ := h'.cons
  have hrows : rows = behind := h.eq
  exact (h.stops _ (hrows ▸ hs.head?_eq)).false

mutual

/-- Rows begin with one statement at most. -/
theorem Begins.unique : (s t : Statement) → ∀ {depth : Nat} {rows behind behind' : List Row},
    s.Begins depth rows behind → t.Begins depth rows behind' → s = t ∧ behind = behind'
  | .assign target value, t, depth, rows, behind, behind', hs, ht => by
      have hopening := hs.opening_eq ht
      cases t with
      | assign target' value' =>
          obtain rfl : target = target' := Entry.assign.inj hopening
          obtain ⟨rfl, rfl⟩ := Expression.rows_append_inj
            (List.tail_eq_of_cons_eq (hs.eq.symm.trans ht.eq))
          exact ⟨rfl, rfl⟩
      | declare es => cases es <;> simp [opening] at hopening
      | _ => simp [opening] at hopening
  | .declare ds, t, depth, rows, behind, behind', hs, ht => by
      have hopening := hs.opening_eq ht
      cases t with
      | declare es =>
          obtain ⟨rfl, rfl⟩ := Declaration.rowsAll_append_inj
            (fun row hrow => (hs.stops row hrow).ne_declaration rfl)
            (fun row hrow => (ht.stops row hrow).ne_declaration rfl) (hs.eq.symm.trans ht.eq)
          exact ⟨rfl, rfl⟩
      | _ => cases ds <;> simp [opening] at hopening
  | .compound ss, t, depth, rows, behind, behind', hs, ht => by
      have hopening := hs.opening_eq ht
      cases t with
      | compound us =>
          obtain ⟨later, hrows, hss⟩ := hs.compound
          obtain ⟨later', hrows', hus⟩ := ht.compound
          obtain rfl : later = later' := List.tail_eq_of_cons_eq (hrows.symm.trans hrows')
          obtain ⟨rfl, rfl⟩ := BeginAll.unique ss us hss hus
          exact ⟨rfl, rfl⟩
      | declare es => cases es <;> simp [opening] at hopening
      | _ => simp [opening] at hopening
  | .ifThen condition branch, t, depth, rows, behind, behind', hs, ht => by
      have hopening := hs.opening_eq ht
      obtain ⟨later, hrows, hbranch⟩ := hs.ifThen
      cases t with
      | ifThen condition' branch' =>
          obtain ⟨later', hrows', hbranch'⟩ := ht.ifThen
          obtain ⟨rfl, rfl⟩ := header_inj (hrows.symm.trans hrows')
          obtain ⟨rfl, rfl⟩ := Begins.unique branch branch' hbranch hbranch'
          exact ⟨rfl, rfl⟩
      | ifThenElse condition' branch' alternative' =>
          -- the row behind the branch is the other one's `else`, at which this one does not stop
          obtain ⟨later', last, hrows', hbranch', -⟩ := ht.ifThenElse
          obtain ⟨rfl, rfl⟩ := header_inj (hrows.symm.trans hrows')
          obtain ⟨rfl, rfl⟩ := Begins.unique branch branch' hbranch hbranch'
          exact absurd rfl (hs.stops _ rfl).ne_else
      | declare es => cases es <;> simp [opening] at hopening
      | _ => simp [opening] at hopening
  | .ifThenElse condition branch alternative, t, depth, rows, behind, behind', hs, ht => by
      have hopening := hs.opening_eq ht
      obtain ⟨later, last, hrows, hbranch, halternative⟩ := hs.ifThenElse
      cases t with
      | ifThen condition' branch' =>
          obtain ⟨later', hrows', hbranch'⟩ := ht.ifThen
          obtain ⟨rfl, rfl⟩ := header_inj (hrows.symm.trans hrows')
          obtain ⟨rfl, rfl⟩ := Begins.unique branch branch' hbranch hbranch'
          exact absurd rfl (ht.stops _ rfl).ne_else
      | ifThenElse condition' branch' alternative' =>
          obtain ⟨later', last', hrows', hbranch', halternative'⟩ := ht.ifThenElse
          obtain ⟨rfl, rfl⟩ := header_inj (hrows.symm.trans hrows')
          obtain ⟨rfl, hlast⟩ := Begins.unique branch branch' hbranch hbranch'
          obtain rfl : last = last' := List.tail_eq_of_cons_eq hlast
          obtain ⟨rfl, rfl⟩ := Begins.unique alternative alternative' halternative halternative'
          exact ⟨rfl, rfl⟩
      | declare es => cases es <;> simp [opening] at hopening
      | _ => simp [opening] at hopening
  | .whileDo condition body, t, depth, rows, behind, behind', hs, ht => by
      have hopening := hs.opening_eq ht
      cases t with
      | whileDo condition' body' =>
          obtain ⟨later, hrows, hbody⟩ := hs.whileDo
          obtain ⟨later', hrows', hbody'⟩ := ht.whileDo
          obtain ⟨rfl, rfl⟩ := header_inj (hrows.symm.trans hrows')
          obtain ⟨rfl, rfl⟩ := Begins.unique body body' hbody hbody'
          exact ⟨rfl, rfl⟩
      | declare es => cases es <;> simp [opening] at hopening
      | _ => simp [opening] at hopening

theorem BeginAll.unique : (ss us : List Statement) → ∀ {depth : Nat}
    {rows behind behind' : List Row}, BeginAll ss depth rows behind →
    BeginAll us depth rows behind' → ss = us ∧ behind = behind'
  | [], [], _, _, _, _, hss, hus => ⟨rfl, hss.eq.symm.trans hus.eq⟩
  | [], _ :: _, _, _, _, _, hss, hus => (hss.false_of_nil_of_cons hus).elim
  | _ :: _, [], _, _, _, _, hss, hus => (hus.false_of_nil_of_cons hss).elim
  | s :: ss, u :: us, depth, rows, behind, behind', hss, hus => by
      obtain ⟨later, hs, hothers⟩ := hss.cons
      obtain ⟨later', hu, hothers'⟩ := hus.cons
      obtain ⟨rfl, rfl⟩ := Begins.unique s u hs hu
      obtain ⟨rfl, rfl⟩ := BeginAll.unique ss us hothers hothers'
      exact ⟨rfl, rfl⟩

end

end Statement

/-! ### Programs -/

/-- The rows of a program give back the program. -/
theorem Program.eq_of_rows_eq {p q : Program} (hp : p.isWellSpelled = true)
    (hp' : p.isUnambiguous = true) (hq : q.isWellSpelled = true) (hq' : q.isUnambiguous = true)
    (h : p.rows = q.rows) : p = q := by
  obtain ⟨-, hpbody⟩ := Bool.and_eq_true_iff.1 hp
  obtain ⟨-, hqbody⟩ := Bool.and_eq_true_iff.1 hq
  obtain ⟨name, declarations, body⟩ := p
  obtain ⟨name', declarations', body'⟩ := q
  obtain ⟨hname, hblock⟩ := List.cons_eq_cons.1 h
  obtain rfl : name = name' := by simpa using hname
  obtain ⟨rfl, hbody⟩ := Declaration.rowsAll_append_inj (by simp) (by simp) hblock
  have hbegin : Statement.BeginAll body 2 (Statement.rowsAll 2 body) [] :=
    ⟨hpbody, hp', by simp, by simp⟩
  have hbegin' : Statement.BeginAll body' 2 (Statement.rowsAll 2 body) [] :=
    ⟨hqbody, hq', by simp, by simpa using hbody⟩
  obtain ⟨rfl, -⟩ := Statement.BeginAll.unique body body' hbegin hbegin'
  rfl

/-- **Outlines are unambiguous.**  Whatever two texts are parsed to, the outlines are equal exactly
if the programs are. -/
theorem parseText_outline_eq_iff {text text' : String} {p q : Program}
    (hp : parseText text = .ok p) (hq : parseText text' = .ok q) :
    p.outline = q.outline ↔ p = q := by
  obtain ⟨hpspelled, hpunambiguous, -⟩ := parseText_sound hp
  obtain ⟨hqspelled, hqunambiguous, -⟩ := parseText_sound hq
  refine ⟨fun houtline => ?_, congrArg Program.outline⟩
  rw [← p.print_rows, ← q.print_rows] at houtline
  have hrows := Row.print_inj (Program.allSpelled_rows hpspelled)
    (Program.allSpelled_rows hqspelled) houtline
  exact Program.eq_of_rows_eq hpspelled hpunambiguous hqspelled hqunambiguous hrows

set_option maxRecDepth 2000 in
/-- An alternative of the inner conditional, and of the outer one. -/
theorem parseText_outline_eq_iff_else :
    let first : Statement := .assign "x" (.signed .minus (.number .integer "1"))
    let second : Statement := .assign "x" (.number .real "2.")
    let p : Program := ⟨"P", [], [.ifThen (.ident "a") (.ifThenElse (.ident "b") first second)]⟩
    let q : Program :=
      ⟨"P", [], [.ifThenElse (.ident "a") (.compound [.ifThen (.ident "b") first]) second]⟩
    parseText "program P;begin if a then if b then x:=-(1);else x:=2.;end." = .ok p ∧
      parseText "program P;begin if a then begin if b then x:=-1;end else x:=2.;end." = .ok q ∧
      (p.outline = q.outline ↔ p = q) := by
  intro first second p q
  have hp : parseText "program P;begin if a then if b then x:=-(1);else x:=2.;end." = .ok p := by
    decide +kernel
  have hq : parseText "program P;begin if a then begin if b then x:=-1;end else x:=2.;end." =
      .ok q := by
    decide +kernel
  exact ⟨hp, hq, parseText_outline_eq_iff hp hq⟩

end MiniPascal
