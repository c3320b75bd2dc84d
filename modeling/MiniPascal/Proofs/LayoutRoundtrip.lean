import MiniPascal.Proofs.Acceptance
import MiniPascal.Proofs.LayoutScanning

/-!
# Reading a layout back

The layout of a well-spelled and unambiguous program is never read as another
program.  It is read as the same one if the levels that it reaches are not too
many, and is refused for its depth if they are.
-/

namespace MiniPascal

/-- No level that the layout of the program reaches is too deep. -/
def Program.layoutFits (p : Program) : Bool :=
  p.layoutLevels.all (· ≤ maxDepth)

theorem Program.layoutFits_iff {p : Program} :
    p.layoutFits = true ↔ ∀ n ∈ p.layoutLevels, n ≤ maxDepth := by
  simp [layoutFits]

/-- The layout of a well-spelled and unambiguous program is scanned to tokens that parse to the
program exactly if the levels suffice. -/
theorem Program.exists_parseTokens_layout {p : Program} (hspelled : p.isWellSpelled = true)
    (hunambiguous : p.isUnambiguous = true) :
    ∃ ts, scanText p.layout = .ok ts ∧
      (p.layoutFits = true → parseTokens ts = .ok p) ∧
      (p.layoutFits = false →
        ∃ fault, parseTokens ts = .error fault ∧ fault.kind = .nestingTooDeep) := by
  obtain ⟨ts, hscan, hterminals⟩ := (Program.scans_layout hspelled).scanText_eq_ok
  have hderives : p.Derives (ts.map Token.terminal) p.layoutLevels := by
    rw [hterminals]
    exact Program.derives_terminals hspelled
  refine ⟨ts, hscan, fun hfits => ?_, fun hfits => ?_⟩
  · exact parseTokens_of_derives hderives hunambiguous (Program.layoutFits_iff.1 hfits)
  · refine parseTokens_of_derives_of_not_fits hderives hunambiguous fun hall => ?_
    simp [Program.layoutFits_iff.2 hall] at hfits

/-- **A layout is never read as another program.**  For every well-spelled and unambiguous tree,
parsed or not, the layout is scanned without a fault, and its tokens parse to the same tree or are
refused for their depth. -/
theorem layout_never_misread (p : Program) (hspelled : p.isWellSpelled = true)
    (hunambiguous : p.isUnambiguous = true) :
    ∃ ts, scanText p.layout = .ok ts ∧
      (parseTokens ts = .ok p ∨
        ∃ fault, parseTokens ts = .error fault ∧ fault.kind = .nestingTooDeep) := by
  obtain ⟨ts, hscan, hfitting, htooDeep⟩ := Program.exists_parseTokens_layout hspelled hunambiguous
  refine ⟨ts, hscan, ?_⟩
  cases hfits : p.layoutFits with
  | true => exact .inl (hfitting hfits)
  | false => exact .inr (htooDeep hfits)

/-- A loop around a conditional, with a product behind a sign and a comparison as an operand. -/
def sampleProgram : Program where
  name := "P"
  block :=
    { declarations := [⟨["x", "y_1"], .real⟩]
      body :=
        [.whileDo (.binary .le (.ident "x") (.binary .lt (.ident "y_1") (.number .real "2.")))
          (.ifThenElse (.ident "x")
            (.compound [.assign "x" (.signed .minus (.binary .mul (.ident "x") (.number .integer "7")))])
            (.declare [⟨["z"], .integer⟩]))] }

/-- Its levels suffice, so it is read as itself. -/
theorem layout_never_misread_sampleProgram :
    sampleProgram.isWellSpelled = true ∧ sampleProgram.isUnambiguous = true ∧
      ∃ ts, scanText sampleProgram.layout = .ok ts ∧ parseTokens ts = .ok sampleProgram := by
  have hspelled : sampleProgram.isWellSpelled = true := by decide
  have hunambiguous : sampleProgram.isUnambiguous = true := by decide
  have hfits : sampleProgram.layoutFits = true := by decide
  obtain ⟨ts, hscan, hparse⟩ := layout_never_misread sampleProgram hspelled hunambiguous
  refine ⟨hspelled, hunambiguous, ts, hscan, hparse.resolve_right ?_⟩
  rintro ⟨fault, hfault, -⟩
  obtain ⟨us, hscan', hfitting, -⟩ := Program.exists_parseTokens_layout hspelled hunambiguous
  obtain rfl : ts = us := Except.ok.inj (hscan.symm.trans hscan')
  simp [hfitting hfits] at hfault

end MiniPascal
