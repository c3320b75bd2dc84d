import MiniPascal.Proofs.Grammar

/-!
# Resolving ambiguity

The terminals of a program may derive several trees.  One of them is unambiguous: the
tree in which every alternative has moved to the nearest conditional that is still open
and every run of declarations has taken the one that follows it (`resolved`).  The
terminals stay the same; the levels of nesting do not.
-/

namespace MiniPascal

theorem Declaration.terminalsAll_append (ds es : List Declaration) :
    terminalsAll (ds ++ es) = terminalsAll ds ++ terminalsAll es :=
  List.flatMap_append

namespace Statement

/-- The statement when its nearest open conditional takes the alternative. -/
def withAlternative : Statement → Statement → Statement
  | .ifThen condition branch, alternative =>
      if branch.endsOpen then .ifThen condition (branch.withAlternative alternative)
      else .ifThenElse condition branch alternative
  | .ifThenElse condition branch last, alternative =>
      .ifThenElse condition branch (last.withAlternative alternative)
  | .whileDo condition body, alternative => .whileDo condition (body.withAlternative alternative)
  | s, _ => s

/-- The statement when the run of declarations at its end takes more of them. -/
def withDeclarations : Statement → List Declaration → Statement
  | .declare ds, more => .declare (ds ++ more)
  | .ifThen condition branch, more => .ifThen condition (branch.withDeclarations more)
  | .ifThenElse condition branch last, more =>
      .ifThenElse condition branch (last.withDeclarations more)
  | .whileDo condition body, more => .whileDo condition (body.withDeclarations more)
  | s, _ => s

/-- The statement in front of others; a run of declarations that they begin with joins one that it
ends in. -/
def joined (s : Statement) : List Statement → List Statement
  | .declare ds :: ss =>
      if s.endsInDeclarations then s.withDeclarations ds :: ss else s :: .declare ds :: ss
  | ss => s :: ss

mutual

/-- The unambiguous statement with the same terminals. -/
def resolved : Statement → Statement
  | .compound ss => .compound (resolvedAll ss)
  | .ifThen condition branch => .ifThen condition branch.resolved
  | .ifThenElse condition branch alternative =>
      if branch.resolved.endsOpen then
        .ifThen condition (branch.resolved.withAlternative alternative.resolved)
      else
        .ifThenElse condition branch.resolved alternative.resolved
  | .whileDo condition body => .whileDo condition body.resolved
  | s => s

/-- The unambiguous statements with the same terminals. -/
def resolvedAll : List Statement → List Statement
  | [] => []
  | s :: ss => s.resolved.joined (resolvedAll ss)

end

/-! ### An alternative for the nearest open conditional -/

theorem derives_withAlternative {s alternative : Statement} {ts us : List Terminal}
    {ns ms : List Nat} (hs : s.Derives ts ns) (hopen : s.endsOpen = true)
    (halternative : alternative.Derives us ms) :
    ∃ ns', (s.withAlternative alternative).Derives (ts ++ .word "else" :: us) ns' := by
  cases hs with
  | assign ht hvalue => simp [endsOpen] at hopen
  | declare hne hnamed => simp [endsOpen] at hopen
  | compound hss => simp [endsOpen] at hopen
  | ifThen hcondition hbranch =>
      rw [withAlternative]
      split
      · next hinner =>
          obtain ⟨ns', hbranch'⟩ := derives_withAlternative hbranch hinner halternative
          exact ⟨_, by simpa using Derives.ifThen hcondition hbranch'⟩
      · exact ⟨_, by simpa using Derives.ifThenElse hcondition hbranch halternative⟩
  | ifThenElse hcondition hbranch hlast =>
      obtain ⟨ns', hlast'⟩ := derives_withAlternative hlast hopen halternative
      exact ⟨_, by simpa [withAlternative] using Derives.ifThenElse hcondition hbranch hlast'⟩
  | whileDo hcondition hbody =>
      obtain ⟨ns', hbody'⟩ := derives_withAlternative hbody hopen halternative
      exact ⟨_, by simpa [withAlternative] using Derives.whileDo hcondition hbody'⟩

theorem isUnambiguous_withAlternative (s : Statement) {alternative : Statement}
    (hs : s.isUnambiguous = true) (halternative : alternative.isUnambiguous = true) :
    (s.withAlternative alternative).isUnambiguous = true := by
  match s with
  | .assign .. | .declare _ => rfl
  | .compound ss => exact hs
  | .ifThen condition branch =>
      have hbranch : branch.isUnambiguous = true := hs
      rw [withAlternative]
      split
      · exact isUnambiguous_withAlternative branch hbranch halternative
      · next hclosed => simp [isUnambiguous, hclosed, hbranch, halternative]
  | .ifThenElse condition branch last =>
      simp only [isUnambiguous, Bool.and_eq_true] at hs
      obtain ⟨⟨hclosed, hbranch⟩, hlast⟩ := hs
      have hlast' := isUnambiguous_withAlternative last hlast halternative
      simp only [withAlternative, isUnambiguous, hclosed, hbranch, hlast', Bool.and_self]
  | .whileDo condition body =>
      exact isUnambiguous_withAlternative body hs halternative

/-! ### Declarations for a run of declarations -/

theorem derives_withDeclarations {s : Statement} {more : List Declaration} {ts : List Terminal}
    {ns : List Nat} (hs : s.Derives ts ns) (hends : s.endsInDeclarations = true)
    (hmore : Declaration.AllNamed more) :
    ∃ ns', (s.withDeclarations more).Derives (ts ++ Declaration.terminalsAll more) ns' := by
  cases hs with
  | assign ht hvalue => simp [endsInDeclarations] at hends
  | compound hss => simp [endsInDeclarations] at hends
  | declare hne hnamed =>
      rw [← Declaration.terminalsAll_append]
      exact ⟨_, .declare (by simp [hne]) (List.forall_mem_append.2 ⟨hnamed, hmore⟩)⟩
  | ifThen hcondition hbranch =>
      obtain ⟨ns', hbranch'⟩ := derives_withDeclarations hbranch hends hmore
      exact ⟨_, by simpa [withDeclarations] using Derives.ifThen hcondition hbranch'⟩
  | ifThenElse hcondition hbranch hlast =>
      obtain ⟨ns', hlast'⟩ := derives_withDeclarations hlast hends hmore
      exact ⟨_, by simpa [withDeclarations] using Derives.ifThenElse hcondition hbranch hlast'⟩
  | whileDo hcondition hbody =>
      obtain ⟨ns', hbody'⟩ := derives_withDeclarations hbody hends hmore
      exact ⟨_, by simpa [withDeclarations] using Derives.whileDo hcondition hbody'⟩

theorem isUnambiguous_withDeclarations (s : Statement) (more : List Declaration) :
    (s.withDeclarations more).isUnambiguous = s.isUnambiguous := by
  match s with
  | .assign .. | .declare _ | .compound _ => rfl
  | .ifThen condition branch => exact isUnambiguous_withDeclarations branch more
  | .ifThenElse condition branch last =>
      simp only [withDeclarations, isUnambiguous, isUnambiguous_withDeclarations last more]
  | .whileDo condition body => exact isUnambiguous_withDeclarations body more

theorem derivesAll_joined {s : Statement} {ss : List Statement} {ts us : List Terminal}
    {ns ms : List Nat} (hs : s.Derives ts ns) (hss : DerivesAll ss us ms) :
    ∃ ns', DerivesAll (s.joined ss) (ts ++ us) ns' := by
  unfold joined
  split
  · next ds ss' =>
      split
      · next hends =>
          cases hss with
          | cons hdeclare hss' =>
              cases hdeclare with
              | declare hne hnamed =>
                  obtain ⟨ns', hs'⟩ := derives_withDeclarations hs hends hnamed
                  exact ⟨_, by simpa using DerivesAll.cons hs' hss'⟩
      · exact ⟨_, .cons hs hss⟩
  · exact ⟨_, .cons hs hss⟩

theorem areUnambiguous_joined {s : Statement} {ss : List Statement}
    (hs : s.isUnambiguous = true) (hss : areUnambiguous ss = true) :
    areUnambiguous (s.joined ss) = true := by
  unfold joined
  split
  · next ds ss' =>
      simp only [areUnambiguous, isUnambiguous, endsInDeclarations, Bool.true_and,
        Bool.and_eq_true] at hss
      obtain ⟨happart, hss'⟩ := hss
      simp only [Bool.not_eq_true'] at happart
      split
      · simp [areUnambiguous, isUnambiguous_withDeclarations, hs, happart, hss']
      · next hends =>
          simp [areUnambiguous, isUnambiguous, endsInDeclarations, hs, hends, happart, hss']
  · next hother =>
      have happart : startsWithDeclarations ss = false := by
        unfold startsWithDeclarations
        split
        · next ds ss' => exact absurd rfl (hother ds ss')
        · rfl
      simp [areUnambiguous, hs, hss, happart]

/-! ### Every derivation -/

mutual

theorem derives_resolved {s : Statement} {ts : List Terminal} {ns : List Nat}
    (h : s.Derives ts ns) : ∃ ns', s.resolved.Derives ts ns' := by
  cases h with
  | assign ht hvalue => exact ⟨_, .assign ht hvalue⟩
  | declare hne hnamed => exact ⟨_, .declare hne hnamed⟩
  | compound hss =>
      obtain ⟨ns', hss'⟩ := derivesAll_resolvedAll hss
      exact ⟨_, .compound hss'⟩
  | ifThen hcondition hbranch =>
      obtain ⟨ns', hbranch'⟩ := derives_resolved hbranch
      exact ⟨_, .ifThen hcondition hbranch'⟩
  | ifThenElse hcondition hbranch halternative =>
      obtain ⟨ns₁, hbranch'⟩ := derives_resolved hbranch
      obtain ⟨ns₂, halternative'⟩ := derives_resolved halternative
      rw [resolved]
      split
      · next hopen =>
          obtain ⟨ns', hboth⟩ := derives_withAlternative hbranch' hopen halternative'
          exact ⟨_, .ifThen hcondition hboth⟩
      · exact ⟨_, .ifThenElse hcondition hbranch' halternative'⟩
  | whileDo hcondition hbody =>
      obtain ⟨ns', hbody'⟩ := derives_resolved hbody
      exact ⟨_, .whileDo hcondition hbody'⟩

theorem derivesAll_resolvedAll {ss : List Statement} {ts : List Terminal} {ns : List Nat}
    (h : DerivesAll ss ts ns) : ∃ ns', DerivesAll (resolvedAll ss) ts ns' := by
  cases h with
  | nil => exact ⟨_, .nil⟩
  | cons hs hss =>
      obtain ⟨ns₁, hs'⟩ := derives_resolved hs
      obtain ⟨ns₂, hss'⟩ := derivesAll_resolvedAll hss
      exact derivesAll_joined hs' hss'

end

mutual

theorem isUnambiguous_resolved (s : Statement) : s.resolved.isUnambiguous = true := by
  match s with
  | .assign .. | .declare _ => rfl
  | .compound ss => exact areUnambiguous_resolvedAll ss
  | .ifThen condition branch => exact isUnambiguous_resolved branch
  | .ifThenElse condition branch alternative =>
      have hbranch := isUnambiguous_resolved branch
      have halternative := isUnambiguous_resolved alternative
      rw [resolved]
      split
      · exact isUnambiguous_withAlternative _ hbranch halternative
      · next hclosed => simp [isUnambiguous, hclosed, hbranch, halternative]
  | .whileDo condition body => exact isUnambiguous_resolved body

theorem areUnambiguous_resolvedAll (ss : List Statement) :
    areUnambiguous (resolvedAll ss) = true := by
  match ss with
  | [] => rfl
  | s :: ss =>
      exact areUnambiguous_joined (isUnambiguous_resolved s) (areUnambiguous_resolvedAll ss)

end

end Statement

/-- Whatever derives a program derives an unambiguous one. -/
theorem Program.Derives.exists_unambiguous {p : Program} {ts : List Terminal} {ns : List Nat}
    (h : p.Derives ts ns) : ∃ (p' : Program) (ns' : List Nat), p'.Derives ts ns' ∧
      p'.isUnambiguous = true := by
  obtain ⟨us, hbody, hts⟩ := h.body
  obtain ⟨ns', hbody'⟩ := Statement.derivesAll_resolvedAll hbody
  exact ⟨⟨p.name, p.block.declarations, Statement.resolvedAll p.block.body⟩, ns',
    ⟨h.named, us, hbody', hts⟩, Statement.areUnambiguous_resolvedAll p.block.body⟩

end MiniPascal
