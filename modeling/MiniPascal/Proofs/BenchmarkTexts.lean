import MiniPascal.Command.Benchmark

/-!
# What is told about timed scripts

A script that was measured has a line on the standard output and an object in the document, and a
script that was not has a line on the standard error output.  Each of them names the script and
tells what came of it.  The texts are written out here up to the times in them, and apart from the
functions that make them.
-/

namespace MiniPascal

/-! ### Indented documents -/

namespace Json

theorem renderItems_eq_map (depth : Nat) (items : List Json) :
    renderItems depth items = items.map (renderAt depth) := by
  induction items with
  | nil => rw [renderItems, List.map_nil]
  | cons item items ih => rw [renderItems, ih, List.map_cons]

/-- The text of a field of an object. -/
def fieldText (depth : Nat) (name : String) (value : Json) : String :=
  quote name ++ ": " ++ value.renderAt depth

theorem renderFields_eq_map (depth : Nat) (fields : List (String × Json)) :
    renderFields depth fields = fields.map fun field => fieldText depth field.1 field.2 := by
  induction fields with
  | nil => rw [renderFields, List.map_nil]
  | cons field fields ih =>
      rw [renderFields, ih, List.map_cons]
      rfl

/-- Each of the parts has a line of its own. -/
theorem bracket_cons (left right : String) (depth : Nat) (part : String) (parts : List String) :
    bracket left right depth (part :: parts) =
      left ++ lineStart (depth + 1) ++
        String.intercalate ("," ++ lineStart (depth + 1)) (part :: parts) ++ lineStart depth ++
        right :=
  rfl

end Json

namespace Benchmark

/-! ### The texts -/

/-- The line about a script that was measured. -/
def summaryText (name times : String) (tokens : Nat) : String :=
  alignRight 12 name ++ ": " ++ times ++ " | tokens=" ++ toString tokens ++ "\n"

/-- The line about a script that was not measured. -/
def failureText (name reason : String) : String :=
  alignRight 12 name ++ ": " ++ reason ++ "\n"

/-- A field of an object, on a line of its own. -/
def fieldLine (margin name value : String) : String :=
  "\n" ++ margin ++ "\"" ++ name ++ "\"" ++ ": " ++ value

/-- The object of a script that was measured; the fields for the times are the last ones. -/
def itemText (name : String) (iterations tokens : Nat) (times : String) : String :=
  "\x7b" ++ fieldLine "      " "name" (Json.quote name) ++ "," ++
    fieldLine "      " "iterations" (toString iterations) ++ "," ++
    fieldLine "      " "tokens" (toString tokens) ++ "," ++ times ++ "\n    " ++ "\x7d"

/-- The objects in brackets, each on lines of its own. -/
def itemsText (items : List String) : String :=
  if items.isEmpty then "[]"
  else "[" ++ "\n    " ++ String.intercalate ("," ++ "\n    ") items ++ "\n  " ++ "]"

/-- The document with some objects. -/
def documentText (time : String) (items : List String) : String :=
  "\x7b" ++ fieldLine "  " "timestamp" (Json.quote time) ++ "," ++
    fieldLine "  " "tinypas_version" (Json.quote "0.0.1-dev") ++ "," ++
    fieldLine "  " "benchmarks" (itemsText items) ++ "\n" ++ "\x7d"

/-- What is told about a script with some outcome: a line and an object with its tokens, or a line
with the reason why it has none, and never both. -/
inductive Told (s : Settings) (script : Script) :
    Except Failure Nat → Option String → Option String → Option String → Prop
  | measured {tokens : Nat} (times figures : String) :
      Told s script (.ok tokens) (some (summaryText script.name times tokens))
        (some (itemText script.name s.iterations tokens figures)) none
  | unreadable {path : String} {e : FileError} :
      Told s script (.error (.unreadable path e)) none none
        (some (failureText script.name ("failed to read " ++ path ++ ": " ++ e.message)))
  | faulty {fault : Fault} :
      Told s script (.error (.faulty fault)) none none
        (some (failureText script.name fault.message))

/-! ### The functions that make them -/

theorem Failure.line_unreadable (name path : String) (e : FileError) :
    (unreadable path e).line name =
      failureText name ("failed to read " ++ path ++ ": " ++ e.message) := by
  simp only [line, Entry.nameColumn, failureText, String.append_assoc]

theorem Failure.line_faulty (name : String) (fault : Fault) :
    (faulty fault).line name = failureText name fault.message :=
  rfl

variable (around : Surroundings)

namespace Entry

/-- The text of the object of an entry. -/
def item (e : Entry) : String :=
  (e.toJson around).renderAt 2

theorem exists_summary_eq (e : Entry) :
    ∃ times, e.summary around = summaryText e.name times e.tokens := by
  refine ⟨"total avg=" ++ around.milliseconds e.total.average ++ " min=" ++
    around.milliseconds e.total.least ++ " max=" ++ around.milliseconds e.total.greatest ++
    " | lex=" ++ around.milliseconds e.scanning.average ++ " parse=" ++
    around.milliseconds e.parsing.average, ?_⟩
  simp only [summary, nameColumn, summaryText, String.append_assoc]

theorem exists_item_eq (e : Entry) :
    ∃ times, e.item around = itemText e.name e.iterations e.tokens times := by
  have hmargin : Json.lineStart 3 = "\n" ++ "      " := by decide
  have hend : Json.lineStart 2 = "\n    " := by decide
  have hname : Json.quote "name" = "\"" ++ "name" ++ "\"" := by decide +kernel
  have hiterations : Json.quote "iterations" = "\"" ++ "iterations" ++ "\"" := by decide +kernel
  have htokens : Json.quote "tokens" = "\"" ++ "tokens" ++ "\"" := by decide +kernel
  refine ⟨Json.lineStart 3 ++ String.intercalate ("," ++ Json.lineStart 3)
    [Json.fieldText 3 "avg_total_ms" (.number (around.number e.total.average)),
      Json.fieldText 3 "min_total_ms" (.number (around.number e.total.least)),
      Json.fieldText 3 "max_total_ms" (.number (around.number e.total.greatest)),
      Json.fieldText 3 "avg_lex_ms" (.number (around.number e.scanning.average)),
      Json.fieldText 3 "avg_parse_ms" (.number (around.number e.parsing.average))], ?_⟩
  rw [item, toJson, Json.renderAt, Json.renderFields_eq_map]
  simp only [itemText, fieldLine, Json.bracket_cons, Json.fieldText, Json.renderAt, Json.ofNat,
    List.map_cons, List.map_nil, Nat.reduceAdd, String.intercalate_cons_cons,
    String.intercalate_singleton, String.append_assoc, hmargin, hend, hname, hiterations, htokens]

end Entry

theorem bracket_eq_itemsText (items : List String) :
    Json.bracket "[" "]" 1 items = itemsText items := by
  have hmargin : Json.lineStart 2 = "\n    " := by decide
  have hend : Json.lineStart 1 = "\n  " := by decide
  cases items with
  | nil => rfl
  | cons item items =>
      simp only [Json.bracket_cons, itemsText, Nat.reduceAdd, hmargin, hend]
      rfl

/-- The document has the objects of the entries, in their order. -/
theorem render_document (entries : List Entry) :
    (document around entries).render =
      documentText around.documentTime (entries.map (Entry.item around)) := by
  have hmargin : Json.lineStart 1 = "\n" ++ "  " := by decide
  have hend : Json.lineStart 0 = "\n" := by decide
  have htime : Json.quote "timestamp" = "\"" ++ "timestamp" ++ "\"" := by decide +kernel
  have hversion : Json.quote "tinypas_version" = "\"" ++ "tinypas_version" ++ "\"" := by
    decide +kernel
  have hitems : Json.quote "benchmarks" = "\"" ++ "benchmarks" ++ "\"" := by decide +kernel
  have hobjects : Json.bracket "[" "]" 1 (Json.renderItems 2 (entries.map (Entry.toJson around))) =
      itemsText (entries.map (Entry.item around)) := by
    rw [Json.renderItems_eq_map, List.map_map, bracket_eq_itemsText]
    rfl
  rw [Json.render, document, Json.renderAt, Json.renderFields_eq_map]
  simp only [documentText, fieldLine, Json.bracket_cons, Json.fieldText, Json.renderAt, versionText,
    List.map_cons, List.map_nil, Nat.reduceAdd, String.intercalate_cons_cons,
    String.intercalate_singleton, String.append_assoc, hmargin, hend, htime, hversion, hitems,
    hobjects]

/-! ### What is told by them -/

variable {s : Settings} {script : Script} {summary item line : Option String}

theorem Told.failed (failure : Failure) :
    Told s script (.error failure) none none (some (failure.line script.name)) := by
  cases failure with
  | unreadable path e =>
      rw [Failure.line_unreadable]
      exact .unreadable
  | faulty fault => exact .faulty

theorem Told.ofEntry {e : Entry} (hname : e.name = script.name)
    (hiterations : e.iterations = s.iterations) :
    Told s script (.ok e.tokens) (some (e.summary around)) (some (e.item around)) none := by
  obtain ⟨times, hsummary⟩ := e.exists_summary_eq around
  obtain ⟨figures, hitem⟩ := e.exists_item_eq around
  rw [hsummary, hitem, hname, hiterations]
  exact .measured times figures

theorem Told.of_ok {tokens : Nat} (h : Told s script (.ok tokens) summary item line) :
    ∃ times figures, summary = some (summaryText script.name times tokens) ∧
      item = some (itemText script.name s.iterations tokens figures) ∧ line = none := by
  cases h with
  | measured times figures => exact ⟨times, figures, rfl, rfl, rfl⟩

theorem Told.of_error {failure : Failure} (h : Told s script (.error failure) summary item line) :
    summary = none ∧ item = none ∧ line = some (failure.line script.name) := by
  cases h with
  | unreadable => exact ⟨rfl, rfl, congrArg some (Failure.line_unreadable ..).symm⟩
  | faulty => exact ⟨rfl, rfl, rfl⟩

end Benchmark

end MiniPascal
