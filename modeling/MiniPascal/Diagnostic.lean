import MiniPascal.Parser.Statement
import MiniPascal.Terminal.Style
import MiniPascal.Text.Lines

/-!
# Diagnostics

A diagnostic shows a fault together with the source line it points at, a caret
under the column, and advice on common mistakes.
-/

namespace MiniPascal

/-- A text that fills at least `width` columns, blanks first. -/
def alignRight (width : Nat) (text : String) : String :=
  String.ofList (List.replicate (width - text.length) ' ') ++ text

namespace Fault

/-- The number of a line in front of its text. -/
def gutter (line : Nat) : String :=
  alignRight 3 (toString line) ++ " | "

/-- A caret under a column of a line that stands behind its gutter. -/
def caret (line column : Nat) : String :=
  String.ofList (List.replicate ((gutter line).length + (column - 1)) ' ') ++ "^"

/-- A source line with a caret under one of its columns. -/
def excerpt (sourceLine : List Char) (line column : Nat) : List StyledLine :=
  [[.plain "     |"],
   [⟨[.brightBlack], gutter line⟩, .plain (String.ofList sourceLine)],
   [⟨[.red], caret line column⟩, ⟨[.red], " error here"⟩],
   [.plain "     |"]]

/-- Where a fault points, with an excerpt if the source has that line. -/
def pointer (source : String) (fault : Fault) : List StyledLine :=
  match fault.line, fault.column with
  | some line, some column =>
      [.plain ("  --> line " ++ toString line ++ ", column " ++ toString column)] ::
        match (textLines source.toList)[line - 1]? with
        | some sourceLine => excerpt sourceLine line column
        | none => []
  | _, _ => []

/-- The reserved word or type that a lexeme spells with capitals. -/
def caseMismatch? (lexeme : String) : Option String :=
  if lexeme.toLower = lexeme then
    none
  else
    (reservedWords ++ reservedTypes).find? fun word => word == lexeme.toLower

/-- Advice on one lexeme in the place where it was found. -/
def advice (kind : FaultKind) (lexeme : String) : Option Span :=
  match caseMismatch? lexeme with
  | some word =>
      some ⟨[.cyan], "Reserved words are lowercase: did you mean '" ++ word ++ "'?"⟩
  | none =>
      match kind with
      | .expectedAssignmentOperator =>
          if lexeme = "=" then
            some ⟨[.cyan], "'=' compares values; assign with ':='"⟩
          else
            none
      | .expectedSemicolon =>
          if lexeme = "else" then
            some ⟨[.cyan], "Assignments end with ';' even right before 'else'"⟩
          else
            none
      | .unknownCharacter =>
          some ⟨[.brightBlack], "Comments start with '//'; strings are quoted with ' or \""⟩
      | .invalidFactor =>
          if (lexeme.toList.head?).any isQuote then
            some ⟨[.brightBlack], "String literals cannot appear inside expressions"⟩
          else
            none
      | _ => none

/-- The hint for a kind of fault, and advice on the lexeme that is quoted. -/
def suggestions (fault : Fault) : List StyledLine :=
  let hint := match fault.kind.hint with
    | some hint => [[⟨[.yellow], "💡 Help: " ++ hint⟩]]
    | none => []
  let advice := match fault.lexeme.bind (advice fault.kind) with
    | some span => [[.plain "    ", span]]
    | none => []
  hint ++ advice

/-- The lines that report a fault in `source` under a label. -/
def diagnostic (label source : String) (fault : Fault) : List StyledLine :=
  [⟨[.bold, .red], label⟩, .plain ": ", ⟨[.red], fault.summary⟩] ::
    (fault.pointer source ++ fault.suggestions)

/-- What stands in front of a fault, by the stage that found it. -/
def lexLabel : String :=
  "Lex error"

/-- What stands in front of a fault that the parser found. -/
def parseLabel : String :=
  "Parse error"

end Fault

/-- The report on a text: the first fault that scanning or parsing finds, or nothing. -/
def diagnoseText (source : String) : List StyledLine :=
  match scanText source with
  | .error fault => fault.diagnostic Fault.lexLabel source
  | .ok ts =>
      match parseTokens ts with
      | .error fault => fault.diagnostic Fault.parseLabel source
      | .ok _ => []

end MiniPascal
