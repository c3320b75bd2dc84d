import MiniPascal.Command.Arguments
import MiniPascal.Diagnostic
import MiniPascal.Json.Report
import MiniPascal.Program.Outline
import MiniPascal.Registry
import MiniPascal.Session

/-!
# The command that analyzes a program

It scans and parses one source file and shows what it is asked for: the tokens,
the tree, both in one document, or the listing in a file.
-/

namespace MiniPascal

/-- The version that every command reports. -/
def versionText : String :=
  "0.0.1-dev"

namespace Analyze

/-- What is to be analyzed and shown. -/
structure Settings where
  file : String
  output : Option String
  tokens : Bool
  tree : Bool
  document : Bool
  verbose : Bool

/-- The options of the command. -/
def rules : ArgumentRules :=
  ⟨[⟨"file", some 'f', .single acceptsPath⟩, ⟨"output", some 'o', .single acceptsPath⟩,
    ⟨"tokens", none, .flag⟩, ⟨"ast", none, .flag⟩, ⟨"json", none, .flag⟩,
    ⟨"verbose", some 'v', .flag⟩, ⟨"version", some 'V', .version⟩, ⟨"help", some 'h', .help⟩], 0⟩

/-- The settings that some arguments ask for. -/
def settings (arguments : List String) : Except Interruption Settings := do
  let given ← rules.read arguments
  match given.value? "file" with
  | none => throw (.usage (.missing "--file"))
  | some file =>
      return ⟨file, given.value? "output", given.has "tokens", given.has "ast",
        given.has "json", given.has "verbose"⟩

/-- Print a refusal and end with the exit code for it. -/
def fail (message : String) : Session Nat :=
  .warn (StyledLine.render [⟨[.bold, .red], "error"⟩, .plain ": ", ⟨[.red], message⟩]) (pure 1)

/-- Print a diagnostic and end with the exit code for it. -/
def failWith (lines : List StyledLine) : Session Nat :=
  .warn (StyledLine.renderAll lines) (pure 1)

/-- Say how far the command has come, if it is asked to. -/
def progress (s : Settings) (message : String) : Session Unit :=
  if s.verbose then
    .warn (StyledLine.render
      [⟨[.brightBlack], "[tinypas]"⟩, .plain " ", ⟨[.dimmed], message⟩]) (pure ())
  else
    pure ()

/-- Where the listing goes: the setting counts more than the surroundings, where an empty path
says nothing. -/
def listingPath? (s : Settings) (surroundings : Option String) : Option String :=
  match s.output with
  | some path => some path
  | none => surroundings.filter fun path => !path.isEmpty

/-- Write a text to a path whose directories may be missing. -/
def writeAt (path text : String) : Session (Except FileError Unit) := do
  match ← Session.makeParent path .done with
  | .error e => return .error e
  | .ok () => Session.write path text .done

/-- Show the tokens and the tree of a text that could be scanned. -/
def showProgram (s : Settings) (source : String) (registry : Registry) : Session Nat := do
  if s.tokens && !s.document then
    Session.print (registry.toList.foldl (fun out t => out ++ "LEX: " ++ t.listingLine ++ "\n") "")
      (pure ())
  match parseTokens registry.toList with
  | .error fault => failWith (fault.diagnostic Fault.parseLabel source)
  | .ok program =>
      progress s ("parsed program " ++ program.name)
      if s.document then
        Session.print ((Json.report registry.toList program).render ++ "\n") (pure 0)
      else if s.tree then
        Session.print program.outline (pure 0)
      else
        return 0

/-- Write the listing, if it is asked for, and go on. -/
def showTokens (s : Settings) (surroundings : Option String) (source : String)
    (registry : Registry) : Session Nat := do
  progress s ("lexed " ++ toString registry.size ++ " tokens (" ++
    toString registry.distinctLexemes ++ " distinct lexemes)")
  match listingPath? s surroundings with
  | none => showProgram s source registry
  | some path =>
      match ← writeAt path registry.listing with
      | .error e => fail ("Failed to write " ++ path ++ ": " ++ e.message)
      | .ok () =>
          progress s ("wrote token listing to " ++ path)
          showProgram s source registry

/-- Run the command; the answer is its exit code. -/
def run (s : Settings) (surroundings : Option String) : Session Nat := do
  if Path.extension? s.file ≠ some "pas" then
    fail "Invalid file extension. Please provide a .pas file."
  else if !(← Session.isPresent s.file .done) then
    fail ("File not found: " ++ s.file)
  else
    match ← Session.read s.file .done with
    | .error e => fail ("Failed to read " ++ s.file ++ ": " ++ e.message)
    | .ok source =>
        match tokenize source with
        | .error fault => failWith (fault.diagnostic Fault.lexLabel source)
        | .ok registry => showTokens s surroundings source registry

end Analyze

end MiniPascal
