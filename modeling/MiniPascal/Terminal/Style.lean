/-!
# Styled lines

A line of terminal output is a list of spans, each with the styles it is shown
in.  The escapes that switch styles on and off cover no columns.
-/

namespace MiniPascal

/-- Ways to show a text on a terminal. -/
inductive Style where
  | red
  | green
  | yellow
  | cyan
  | brightBlack
  | bold
  | dimmed
  deriving DecidableEq

namespace Style

/-- The code that switches a style on. -/
def onCode : Style → String
  | red => "31"
  | green => "32"
  | yellow => "33"
  | cyan => "36"
  | brightBlack => "90"
  | bold => "1"
  | dimmed => "2"

/-- The code that switches a style off: colours return to the default, the others reset. -/
def offCode : Style → String
  | bold | dimmed => "0"
  | _ => "39"

/-- A text with the escapes of a style around it. -/
def wrap (style : Style) (text : String) : String :=
  "\x1b[" ++ style.onCode ++ "m" ++ text ++ "\x1b[" ++ style.offCode ++ "m"

end Style

/-- A text shown in some styles, the outermost first. -/
structure Span where
  styles : List Style
  text : String
  deriving DecidableEq

namespace Span

/-- A text in no style. -/
def plain (text : String) : Span :=
  ⟨[], text⟩

/-- The text of a span with its escapes. -/
def render (span : Span) : String :=
  span.styles.foldr Style.wrap span.text

end Span

/-- A line of styled output. -/
abbrev StyledLine : Type :=
  List Span

namespace StyledLine

/-- A line with its escapes and its line feed. -/
def render (line : StyledLine) : String :=
  String.join (line.map Span.render) ++ "\n"

/-- Some lines, one after the other. -/
def renderAll (lines : List StyledLine) : String :=
  String.join (lines.map render)

end StyledLine

end MiniPascal
