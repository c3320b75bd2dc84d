import MiniPascal.Command.Arguments
import MiniPascal.Parser.Statement
import MiniPascal.Program.Layout
import MiniPascal.Session
import MiniPascal.Terminal.Style
import MiniPascal.Text.Lines

/-!
# The command that lays out a program

It prints one source file in its canonical layout, writes it back, or checks
whether it is laid out so already; which line ends a file uses does not count.
-/

namespace MiniPascal

namespace Reformat

/-- What happens to the canonical layout. -/
inductive Mode where
  | print
  | check
  | write
  deriving DecidableEq

/-- The options of the command. -/
def rules : ArgumentRules :=
  ⟨[⟨"check", none, .flag⟩, ⟨"write", none, .flag⟩, ⟨"version", some 'V', .version⟩,
    ⟨"help", some 'h', .help⟩], 1⟩

/-- The mode and the file that some arguments ask for. -/
def settings (arguments : List String) : Except Interruption (Mode × String) := do
  let given ← rules.read arguments
  match given.operands.head? with
  | none => throw (.usage (.missing "FILE"))
  | some file =>
      if given.has "check" && given.has "write" then
        throw (.usage (.conflict "--check" "--write"))
      else if given.has "check" then
        return (.check, file)
      else if given.has "write" then
        return (.write, file)
      else
        return (.print, file)

/-- Print a refusal and end with the exit code for it. -/
def fail (message : String) : Session Nat :=
  .warn (StyledLine.render [⟨[.bold, .red], "error"⟩, .plain (": " ++ message)]) (pure 1)

/-- What the command does with the layout of a file that holds `source`. -/
def finish (mode : Mode) (file source layout : String) : Session Nat :=
  match mode with
  | .print => .print layout (pure 0)
  | .check =>
      if normalizeLineEnds layout = normalizeLineEnds source then
        .print (StyledLine.render [.plain (file ++ ": "), ⟨[.green], "ok"⟩]) (pure 0)
      else
        .warn (StyledLine.render [.plain (file ++ ": "), ⟨[.yellow], "not formatted"⟩]) (pure 1)
  | .write =>
      .write file layout fun answer =>
        match answer with
        | .error e => fail ("Failed to write " ++ file ++ ": " ++ e.message)
        | .ok () => pure 0

/-- Run the command; the answer is its exit code. -/
def run (mode : Mode) (file : String) : Session Nat :=
  .read file fun answer =>
    match answer with
    | .error e => fail ("Failed to read " ++ file ++ ": " ++ e.message)
    | .ok source =>
        match scanText source with
        | .error fault => fail ("Lex error: " ++ fault.message)
        | .ok ts =>
            match parseTokens ts with
            | .error fault => fail ("Parse error: " ++ fault.message)
            | .ok program => finish mode file source program.layout

end Reformat

end MiniPascal
