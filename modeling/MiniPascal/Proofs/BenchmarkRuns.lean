import Mathlib.Data.List.Basic
import MiniPascal.Proofs.BenchmarkTexts
import MiniPascal.Proofs.FileWrites
import MiniPascal.Proofs.SessionRuns

/-!
# Timing scripts

A run of the command accounts for every script.  What comes of a script is decided by that script
and the settings alone, the times apart: an entry with the number of its tokens, or the reason why
there is none.  The entries keep the order of the scripts, no two of them share a lap, and the
results are written whether or not a script failed.
-/

namespace MiniPascal

namespace Samples

/-- The samples of some laps, from a given one on, over a text with so many tokens. -/
def timed (stopwatch : Nat → LapTimes) (first count tokens : Nat) : Samples :=
  ⟨(List.range' first count).map fun lap => ⟨stopwatch lap, tokens⟩⟩

/-- The last lap, if there is one, tells the number of tokens. -/
@[simp]
theorem tokens_timed (stopwatch : Nat → LapTimes) (first count tokens : Nat) :
    (timed stopwatch first count tokens).tokens = if count = 0 then 0 else tokens := by
  cases count with
  | zero => rfl
  | succ count => simp [Samples.tokens, timed, List.getLast?_map, List.getLast?_range']

/-- Without laps it does not matter how many tokens there would be. -/
theorem timed_ite (stopwatch : Nat → LapTimes) (first count tokens : Nat) :
    timed stopwatch first count (if count = 0 then 0 else tokens) =
      timed stopwatch first count tokens := by
  cases count <;> rfl

end Samples

namespace Session

variable {source : String} {tokens : Nat} {fault : Fault}

/-! ### Laps -/

@[simp]
theorem runLaps_zero (source : String) (past : List Lap) :
    runLaps source past 0 = pure (.ok past.reverse) :=
  rfl

theorem run_runLaps_of_ok (h : countTokens source = .ok tokens) (past : List Lap) (n : Nat)
    (w : World) :
    (runLaps source past n).run w =
      (.ok (past.reverse ++ (Samples.timed w.stopwatch w.laps n tokens).laps),
        { w with laps := w.laps + n }) := by
  induction n generalizing past w with
  | zero => simp [Samples.timed]
  | succ n ih =>
      simp only [runLaps, run, h, Except.map, ih]
      simp [Samples.timed, List.range'_succ, Nat.add_assoc, Nat.add_comm 1 n]

/-- The first lap finds the fault, and no other lap follows. -/
theorem run_runLaps_of_error (h : countTokens source = .error fault) (past : List Lap) (n : Nat)
    (w : World) :
    (runLaps source past (n + 1)).run w = (.error fault, { w with laps := w.laps + 1 }) := by
  simp [runLaps, run, h, Except.map]

theorem run_measure_of_ok (h : countTokens source = .ok tokens) (iterations warmup : Nat)
    (w : World) :
    (measure source iterations warmup).run w =
      (.ok (Samples.timed w.stopwatch (w.laps + warmup) iterations tokens),
        { w with laps := w.laps + warmup + iterations }) := by
  simp [measure, run_runLaps_of_ok h, Samples.timed]

theorem run_measure_of_error (h : countTokens source = .error fault) {iterations warmup : Nat}
    (hlaps : iterations + warmup ≠ 0) (w : World) :
    (measure source iterations warmup).run w = (.error fault, { w with laps := w.laps + 1 }) := by
  cases warmup with
  | succ warmup => simp [measure, run_runLaps_of_error h]
  | zero =>
      obtain ⟨n, rfl⟩ : ∃ n, iterations = n + 1 := Nat.exists_eq_succ_of_ne_zero hlaps
      simp [measure, run_runLaps_of_error h]

/-- Without laps nothing is found out about a text. -/
theorem run_measure_zero (source : String) (w : World) :
    (measure source 0 0).run w = (.ok ⟨[]⟩, w) := by
  simp [measure]

end Session

namespace Benchmark

/-! ### One script -/

/-- What comes of a script by itself: the number of tokens that its entry tells, or why it has no
entry.  Only laps find faults, and only laps that are measured count tokens. -/
def outcome (t : FileTree) (s : Settings) (script : Script) : Except Failure Nat :=
  match t.read script.path with
  | .error e => .error (.unreadable script.path e)
  | .ok source =>
      if s.iterations + s.warmup = 0 then
        .ok 0
      else
        match scanText source with
        | .error fault => .error (.faulty fault)
        | .ok ts =>
            match parseTokens ts with
            | .error fault => .error (.faulty fault)
            | .ok _ => .ok (if s.iterations = 0 then 0 else ts.length)

/-- A script, the number of laps that were timed before it, and what came of it. -/
structure Report where
  script : Script
  before : Nat
  result : Except Failure Entry

namespace Report

/-- The entry of a script that has one. -/
def entry? (r : Report) : Option Entry :=
  match r.result with
  | .ok entry => some entry
  | .error _ => none

/-- The line about a script that has an entry. -/
def summary? (around : Surroundings) (r : Report) : Option String :=
  r.entry?.map (Entry.summary around)

/-- The object of a script that has an entry, as it stands in the document. -/
def item? (around : Surroundings) (r : Report) : Option String :=
  r.entry?.map (Entry.item around)

/-- The line about a script that has no entry. -/
def failureLine? (r : Report) : Option String :=
  match r.result with
  | .ok _ => none
  | .error failure => some (failure.line r.script.name)

/-- The script has no entry. -/
def fails (r : Report) : Bool :=
  !r.result.isOk

variable (script : Script) (before : Nat) (entry : Entry) (failure : Failure)

@[simp]
theorem entry?_ok : entry? ⟨script, before, .ok entry⟩ = some entry :=
  rfl

@[simp]
theorem entry?_error : entry? ⟨script, before, .error failure⟩ = none :=
  rfl

@[simp]
theorem summary?_ok (around : Surroundings) :
    summary? around ⟨script, before, .ok entry⟩ = some (entry.summary around) :=
  rfl

@[simp]
theorem summary?_error (around : Surroundings) :
    summary? around ⟨script, before, .error failure⟩ = none :=
  rfl

@[simp]
theorem failureLine?_ok : failureLine? ⟨script, before, .ok entry⟩ = none :=
  rfl

@[simp]
theorem failureLine?_error :
    failureLine? ⟨script, before, .error failure⟩ = some (failure.line script.name) :=
  rfl

@[simp]
theorem fails_ok : fails ⟨script, before, .ok entry⟩ = false :=
  rfl

@[simp]
theorem fails_error : fails ⟨script, before, .error failure⟩ = true :=
  rfl

end Report

/-- The entry of a script that has so many tokens and is measured after so many laps. -/
def entryOf (stopwatch : Nat → LapTimes) (s : Settings) (script : Script) (before tokens : Nat) :
    Entry :=
  Entry.ofSamples script.name s.iterations
    (Samples.timed stopwatch (before + s.warmup) s.iterations tokens)

theorem tokens_entryOf (stopwatch : Nat → LapTimes) (s : Settings) (script : Script)
    (before tokens : Nat) :
    (entryOf stopwatch s script before tokens).tokens = if s.iterations = 0 then 0 else tokens :=
  Samples.tokens_timed ..

variable {t : FileTree} {s : Settings} {script : Script} {source : String}

theorem outcome_of_unreadable {e : FileError} (hread : t.read script.path = .error e) :
    outcome t s script = .error (.unreadable script.path e) := by
  simp [outcome, hread]

theorem outcome_of_zero (hread : t.read script.path = .ok source)
    (hlaps : s.iterations + s.warmup = 0) : outcome t s script = .ok 0 := by
  simp [outcome, hread, hlaps]

theorem outcome_of_laps (hread : t.read script.path = .ok source)
    (hlaps : s.iterations + s.warmup ≠ 0) :
    outcome t s script =
      match countTokens source with
      | .error fault => .error (.faulty fault)
      | .ok tokens => .ok (if s.iterations = 0 then 0 else tokens) := by
  simp only [outcome, hread, if_neg hlaps, countTokens, bind, Except.bind, pure, Except.pure]
  cases hscan : scanText source with
  | error fault => rfl
  | ok ts => cases hparse : parseTokens ts <;> simp only [hparse]

/-- Only laps that are measured count tokens. -/
theorem eq_zero_of_outcome {tokens : Nat} (h : outcome t s script = .ok tokens)
    (hiterations : s.iterations = 0) : tokens = 0 := by
  unfold outcome at h
  split at h
  · simp at h
  split at h
  · exact (Except.ok.inj h).symm
  split at h
  · simp at h
  split at h
  · simp at h
  · simpa [hiterations] using (Except.ok.inj h).symm

/-- Measuring a script gives its outcome and takes laps, at least those that its entry is measured
by; nothing else changes. -/
theorem run_measureScript (s : Settings) (script : Script) (w : World) :
    ∃ laps, (measureScript s script).run w =
        ((outcome w.files s script).map (entryOf w.stopwatch s script w.laps),
          { w with laps := laps }) ∧
      w.laps ≤ laps ∧
      ((outcome w.files s script).isOk = true → w.laps + s.warmup + s.iterations ≤ laps) := by
  cases hread : w.files.read script.path with
  | error e =>
      rw [outcome_of_unreadable hread]
      refine ⟨w.laps, ?_, Nat.le_refl _, fun h => Bool.noConfusion h⟩
      simp [measureScript, Session.run, hread, Except.map]
  | ok source =>
      by_cases hlaps : s.iterations + s.warmup = 0
      · obtain ⟨hiterations, hwarmup⟩ := Nat.add_eq_zero_iff.1 hlaps
        rw [outcome_of_zero hread hlaps]
        refine ⟨w.laps, ?_, Nat.le_refl _, fun _ => by omega⟩
        simp [measureScript, Session.run, hread, Except.map, hiterations, hwarmup, entryOf,
          Samples.timed, Session.run_measure_zero]
      · rw [outcome_of_laps hread hlaps]
        cases hcount : countTokens source with
        | error fault =>
            refine ⟨w.laps + 1, ?_, by omega, fun h => Bool.noConfusion h⟩
            simp [measureScript, Session.run, hread, Except.map,
              Session.run_measure_of_error hcount hlaps]
        | ok tokens =>
            refine ⟨w.laps + s.warmup + s.iterations, ?_, by omega, fun _ => Nat.le_refl _⟩
            simp [measureScript, Session.run, hread, Except.map,
              Session.run_measure_of_ok hcount, entryOf, Samples.timed_ite]

/-! ### All scripts -/

@[simp]
theorem isOk_map {ε α β : Type} (f : α → β) (result : Except ε α) :
    (result.map f).isOk = result.isOk := by
  cases result <;> rfl

/-- The reports account for the scripts, one for each in their order, when so many laps were timed
before them.  The laps that an entry is measured by come behind those of all earlier entries. -/
structure Accounts (t : FileTree) (stopwatch : Nat → LapTimes) (s : Settings) (start : Nat)
    (scripts : List Script) (reports : List Report) : Prop where
  scripts : reports.map (·.script) = scripts
  results : ∀ r ∈ reports,
    r.result = (outcome t s r.script).map (entryOf stopwatch s r.script r.before)
  starts : ∀ r ∈ reports, start ≤ r.before
  apart : reports.Pairwise fun a b =>
    a.fails = false → a.before + s.warmup + s.iterations ≤ b.before

variable {stopwatch : Nat → LapTimes} {start after : Nat} {scripts : List Script}
  {reports : List Report}

theorem Accounts.cons (h : Accounts t stopwatch s after scripts reports) (script : Script)
    (hle : start ≤ after)
    (hlaps : (outcome t s script).isOk = true → start + s.warmup + s.iterations ≤ after) :
    Accounts t stopwatch s start (script :: scripts)
      (⟨script, start, (outcome t s script).map (entryOf stopwatch s script start)⟩ :: reports) := by
  refine ⟨congrArg (script :: ·) h.scripts, ?_, ?_, .cons (fun r hr hfails => ?_) h.apart⟩
  · exact List.forall_mem_cons.2 ⟨rfl, h.results⟩
  · exact List.forall_mem_cons.2 ⟨Nat.le_refl _, fun r hr => Nat.le_trans hle (h.starts r hr)⟩
  · refine Nat.le_trans (hlaps ?_) (h.starts r hr)
    simpa [Report.fails] using hfails

/-- Measuring the scripts gives reports that account for them, printed in their order. -/
theorem run_measureAll (around : Surroundings) (s : Settings) (scripts : List Script) (w : World) :
    ∃ reports laps, Accounts w.files w.stopwatch s w.laps scripts reports ∧
      (measureAll around s scripts).run w =
        ((reports.filterMap Report.entry?, reports.any Report.fails),
          { w with
            laps := laps
            output := w.output ++ String.join (reports.filterMap (Report.summary? around))
            errors := w.errors ++ String.join (reports.filterMap Report.failureLine?) }) := by
  -- the rest is measured in the world that the first script leaves, which has the same files
  induction scripts generalizing w with
  | nil => exact ⟨[], w.laps, ⟨rfl, by simp, by simp, .nil⟩, by simp [measureAll]⟩
  | cons script scripts ih =>
      obtain ⟨after, hscript, hle, hlaps⟩ := run_measureScript s script w
      cases houtcome : outcome w.files s script with
      | error failure =>
          obtain ⟨reports, laps, haccounts, hrun⟩ :=
            ih { w with laps := after, errors := w.errors ++ failure.line script.name }
          refine ⟨_, laps, haccounts.cons script hle hlaps, ?_⟩
          simp [measureAll, hscript, houtcome, Except.map, Session.run, hrun, List.filterMap_cons,
            String.append_assoc]
      | ok tokens =>
          let entry := entryOf w.stopwatch s script w.laps tokens
          obtain ⟨reports, laps, haccounts, hrun⟩ :=
            ih { w with laps := after, output := w.output ++ entry.summary around }
          refine ⟨_, laps, haccounts.cons script hle hlaps, ?_⟩
          simp [measureAll, hscript, houtcome, Except.map, Session.run, hrun, List.filterMap_cons,
            entry, String.append_assoc]

/-- What is written to a path that can be written to stands there. -/
theorem run_writeAt {w : World} {path : String} (h : w.files.IsWritable path) (text : String) :
    ∃ files, (Analyze.writeAt path text).run w = (.ok (), { w with files := files }) ∧
      files.Holds path text := by
  obtain ⟨files, hwrite, hholds⟩ := h.exists_write text
  refine ⟨files, ?_, hholds⟩
  simp [Analyze.writeAt, Session.run, h.1, hwrite, World.attempt]

/-- The entries tell the tokens of their scripts. -/
theorem Accounts.map_tokens (h : Accounts t stopwatch s start scripts reports) {r : Report}
    (hr : r ∈ reports) : r.result.map Entry.tokens = outcome t s r.script := by
  rw [h.results r hr]
  cases houtcome : outcome t s r.script with
  | error failure => rfl
  | ok tokens =>
      refine congrArg Except.ok ((tokens_entryOf ..).trans ?_)
      split
      · next hiterations => exact (eq_zero_of_outcome houtcome hiterations).symm
      · rfl

theorem Accounts.any_fails_iff (h : Accounts t stopwatch s start scripts reports) :
    reports.any Report.fails = true ↔
      ∃ script ∈ scripts, ∃ failure, outcome t s script = .error failure := by
  have hfails {r : Report} (hr : r ∈ reports) :
      r.fails = true ↔ ∃ failure, outcome t s r.script = .error failure := by
    rw [Report.fails, h.results r hr, isOk_map]
    cases outcome t s r.script <;> simp [Except.isOk, Except.toBool]
  rw [List.any_eq_true, ← h.scripts]
  constructor
  · rintro ⟨r, hr, hfail⟩
    exact ⟨r.script, List.mem_map_of_mem hr, (hfails hr).1 hfail⟩
  · rintro ⟨script, hscript, hfail⟩
    obtain ⟨r, hr, rfl⟩ := List.mem_map.1 hscript
    exact ⟨r, hr, (hfails hr).2 hfail⟩

/-- What is told about a script is decided by its outcome. -/
theorem Accounts.told (h : Accounts t stopwatch s start scripts reports) (around : Surroundings)
    {r : Report} (hr : r ∈ reports) :
    Told s r.script (outcome t s r.script) (r.summary? around) (r.item? around) r.failureLine? := by
  have hresult := h.results r hr
  rw [← h.map_tokens hr]
  obtain ⟨script, before, result⟩ := r
  cases result with
  | error failure => exact .failed failure
  | ok entry =>
      obtain ⟨tokens, -, rfl⟩ : ∃ tokens, outcome t s script = .ok tokens ∧
          entryOf stopwatch s script before tokens = entry := by
        cases houtcome : outcome t s script with
        | error failure => simp [houtcome, Except.map] at hresult
        | ok tokens => exact ⟨tokens, rfl, by simpa [houtcome, Except.map] using hresult.symm⟩
      exact .ofEntry around rfl rfl

/-- **Every script is accounted for.**  Each of the scripts has either an entry, with a line about it
on the standard output and an object in the document, or a line on the standard error output that
says why there is none.  Which of the two it has, and what they say of its tokens or of the reason,
is the outcome of that script alone.  If the results can be written they are, with the objects in
the order of the scripts, and the exit code is 1 just if there is a script without an entry. -/
theorem measureAndWrite_accounts (around : Surroundings) (s : Settings) (scripts : List Script)
    {w : World} (hwritable : w.files.IsWritable (outputPath around s)) :
    ∃ (reports : List Report) (code : Nat) (after : World),
      Accounts w.files w.stopwatch s w.laps scripts reports ∧
      (∀ r ∈ reports, r.result.map Entry.tokens = outcome w.files s r.script ∧
        Told s r.script (outcome w.files s r.script) (r.summary? around) (r.item? around)
          r.failureLine?) ∧
      (measureAndWrite around s scripts).run w = (code, after) ∧
      after.output = w.output ++ String.join (reports.filterMap (Report.summary? around)) ++
        ("\nSaved results to " ++ outputPath around s ++ "\n") ∧
      after.errors = w.errors ++ String.join (reports.filterMap Report.failureLine?) ∧
      after.files.Holds (outputPath around s)
        (documentText around.documentTime (reports.filterMap (Report.item? around))) ∧
      code ≤ 1 ∧
      (code = 1 ↔ ∃ script ∈ scripts, ∃ failure, outcome w.files s script = .error failure) := by
  obtain ⟨reports, laps, haccounts, hrun⟩ := run_measureAll around s scripts w
  let measured : World :=
    { w with
      laps := laps
      output := w.output ++ String.join (reports.filterMap (Report.summary? around))
      errors := w.errors ++ String.join (reports.filterMap Report.failureLine?) }
  obtain ⟨files, hwrite, hholds⟩ := run_writeAt (w := measured) hwritable
    (document around (reports.filterMap Report.entry?)).render
  have hplay : (measureAndWrite around s scripts).run w =
      (if reports.any Report.fails then 1 else 0,
        { measured with
          files := files
          output := measured.output ++ ("\nSaved results to " ++ outputPath around s ++ "\n") }) := by
    simp [measureAndWrite, hrun, Session.run, measured, hwrite]
  rw [render_document, List.map_filterMap] at hholds
  refine ⟨reports, _, _, haccounts,
    fun r hr => ⟨haccounts.map_tokens hr, haccounts.told around hr⟩, hplay, rfl, rfl, hholds, ?_, ?_⟩
  · split <;> simp
  · rw [← haccounts.any_fails_iff]
    simp

/-- A workspace at `/w` with a script that parses, one that is not text and one that ends too
early. -/
def mixedWorld : World :=
  World.start
    ⟨.directory [("w", .directory [("benchmark", .directory [("scripts", .directory
      [("a.pas", .file "program P; begin end.".toUTF8), ("b.pas", .file ⟨#[0xff]⟩),
       ("c.pas", .file "program".toUTF8)])])])], []⟩
    fun _ => ⟨0, 0, 0⟩

/-- Its scripts, and one that is not there. -/
def mixedScripts : List Script :=
  [⟨"a", "/w/benchmark/scripts/a.pas"⟩, ⟨"b", "/w/benchmark/scripts/b.pas"⟩,
    ⟨"c", "/w/benchmark/scripts/c.pas"⟩, ⟨"d", "/w/benchmark/scripts/d.pas"⟩]

/-- Two iterations after one for warming up, and the results where they go by themselves. -/
def mixedSettings : Settings :=
  ⟨[], 2, 1, none, false, false⟩

def mixedSurroundings : Surroundings :=
  ⟨"/w", "now", "now", fun _ => "0ms", fun _ => "0"⟩

theorem exists_eq_ok_of_isOk {ε α : Type} {result : Except ε α} (h : result.isOk = true) :
    ∃ a, result = .ok a := by
  cases result with
  | error e => exact Bool.noConfusion h
  | ok a => exact ⟨a, rfl⟩

/-- One script has an entry and three fail, each for a reason of its own.  The directory of the
results is made, and the document in it has one object. -/
theorem measureAndWrite_accounts_mixed :
    mixedWorld.files.IsWritable (outputPath mixedSurroundings mixedSettings) ∧
      ∃ after times figures,
        (measureAndWrite mixedSurroundings mixedSettings mixedScripts).run mixedWorld =
          (1, after) ∧
        after.output =
          summaryText "a" times 6 ++ "\nSaved results to /w/benchmark/results/now.json\n" ∧
        after.errors =
          failureText "b" ("failed to read /w/benchmark/scripts/b.pas: " ++
            "stream did not contain valid UTF-8") ++
          (failureText "c" "ExpectedIdentifierAfterProgram: 'program' at 1:7" ++
          failureText "d" ("failed to read /w/benchmark/scripts/d.pas: " ++
            "No such file or directory (os error 2)")) ∧
        after.files.Holds "/w/benchmark/results/now.json"
          (documentText "now" [itemText "a" 2 6 figures]) := by
  have hpath : outputPath mixedSurroundings mixedSettings = "/w/benchmark/results/now.json" := by
    decide +kernel
  have hwrite : ((mixedWorld.files.makeParent (outputPath mixedSurroundings mixedSettings)).2.write
      (outputPath mixedSurroundings mixedSettings) "").isOk = true := by decide +kernel
  have hwritable : mixedWorld.files.IsWritable (outputPath mixedSurroundings mixedSettings) :=
    ⟨rfl, "", exists_eq_ok_of_isOk hwrite⟩
  let early : Fault := ⟨.expectedIdentifierAfterProgram, some "program", some 1, some 7⟩
  have hearly : early.message = "ExpectedIdentifierAfterProgram: 'program' at 1:7" := by
    decide +kernel
  have houtcomes : mixedScripts.map (outcome mixedWorld.files mixedSettings) =
      [.ok 6, .error (.unreadable "/w/benchmark/scripts/b.pas" .notText), .error (.faulty early),
        .error (.unreadable "/w/benchmark/scripts/d.pas" .notFound)] := by decide +kernel
  obtain ⟨reports, code, after, haccounts, htold, hrun, houtput, herrors, hholds, -, hcode⟩ :=
    measureAndWrite_accounts mixedSurroundings mixedSettings mixedScripts hwritable
  -- the reports are those of the four scripts, and what they tell is told by the outcomes
  obtain ⟨a, reports, rfl, ha, hscripts⟩ := List.map_eq_cons_iff.1 haccounts.scripts
  obtain ⟨b, reports, rfl, hb, hscripts⟩ := List.map_eq_cons_iff.1 hscripts
  obtain ⟨c, reports, rfl, hc, hscripts⟩ := List.map_eq_cons_iff.1 hscripts
  obtain ⟨d, reports, rfl, hd, hscripts⟩ := List.map_eq_cons_iff.1 hscripts
  obtain rfl := List.map_eq_nil_iff.1 hscripts
  simp only [mixedScripts, List.map_cons, List.map_nil, List.cons.injEq, ← ha, ← hb, ← hc,
    ← hd] at houtcomes
  obtain ⟨hao, hbo, hco, hdo, -⟩ := houtcomes
  have hfailed {r : Report} (hr : r ∈ [a, b, c, d]) {failure : Failure}
      (houtcome : outcome mixedWorld.files mixedSettings r.script = .error failure) :=
    Told.of_error (houtcome ▸ (htold r hr).2)
  obtain ⟨times, figures, hat⟩ := Told.of_ok (hao ▸ (htold a (by simp)).2)
  have hbt := hfailed (by simp) hbo
  have hct := hfailed (by simp) hco
  have hdt := hfailed (by simp) hdo
  have hone : code = 1 := hcode.2 ⟨_, by simp [← hd, mixedScripts], _, hdo⟩
  refine ⟨hwritable, after, times, figures, hone ▸ hrun, ?_, ?_, ?_⟩
  · rw [houtput, hpath]
    simp [hat, hbt, hct, hdt, ha, mixedWorld, World.start]
  · rw [herrors]
    simp [hat, hbt, hct, hdt, hb, hc, hd, mixedWorld, World.start, Failure.line_unreadable,
      Failure.line_faulty, FileError.message, hearly]
  · have hitems : [a, b, c, d].filterMap (Report.item? mixedSurroundings) =
        [itemText "a" 2 6 figures] := by
      simp [hat, hbt, hct, hdt, ha, mixedSettings]
    rwa [hpath, hitems] at hholds

end Benchmark

end MiniPascal
