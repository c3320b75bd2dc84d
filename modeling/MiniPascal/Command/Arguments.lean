/-!
# Command-line arguments

Arguments are read from left to right by the rules of a command.  Short options
can be grouped, a value can follow its option directly or as an argument of its
own, and two hyphens end the options.  Only an option that is meant to be
repeated may be given twice.
-/

namespace MiniPascal

/-- What an option stands for. -/
inductive OptionKind where
  /-- It is given or not. -/
  | flag
  /-- It has one value. -/
  | single (accepts : String → Bool)
  /-- It has one value each time it is given. -/
  | repeated (accepts : String → Bool)
  /-- It asks for the version, and the rest does not matter. -/
  | version
  /-- It asks for help, and the rest does not matter. -/
  | help

/-- An option that a command knows. -/
structure OptionRule where
  long : String
  short : Option Char
  kind : OptionKind

/-- The options that a command knows, and how many operands it takes. -/
structure ArgumentRules where
  options : List OptionRule
  operands : Nat

/-- What is wrong with some arguments. -/
inductive UsageError where
  | unknownOption (option : String)
  | repeatedOption (option : String)
  | missingValue (option : String)
  | unexpectedValue (option : String)
  | invalidValue (option value : String)
  | invalidOperand (operand : String)
  | extraOperand (operand : String)
  | missing (what : String)
  | conflict (first second : String)
  deriving DecidableEq

/-- Why no command runs. -/
inductive Interruption where
  | usage (e : UsageError)
  | version
  | help
  deriving DecidableEq

/-- The options in the order in which they are given, and the operands. -/
structure Arguments where
  options : List (String × Option String)
  operands : List String

namespace Arguments

/-- The option is given. -/
def has (a : Arguments) (long : String) : Bool :=
  a.options.any fun option => option.1 == long

/-- Every value that is given for an option, in order. -/
def values (a : Arguments) (long : String) : List String :=
  a.options.filterMap fun option => if option.1 == long then option.2 else none

/-- The value of an option. -/
def value? (a : Arguments) (long : String) : Option String :=
  (a.values long).head?

end Arguments

namespace UsageError

/-- One line about what is wrong. -/
def message : UsageError → String
  | unknownOption option => "unexpected argument '" ++ option ++ "'"
  | repeatedOption option => "the option '" ++ option ++ "' cannot be used multiple times"
  | missingValue option => "a value is required for '" ++ option ++ "'"
  | unexpectedValue option => "the option '" ++ option ++ "' takes no value"
  | invalidValue option value => "invalid value '" ++ value ++ "' for '" ++ option ++ "'"
  | invalidOperand operand => "invalid argument '" ++ operand ++ "'"
  | extraOperand operand => "unexpected argument '" ++ operand ++ "'"
  | missing what => "the argument '" ++ what ++ "' is required"
  | conflict first second =>
      "the option '" ++ first ++ "' cannot be used with '" ++ second ++ "'"

end UsageError

/-- A path has to say something. -/
def acceptsPath (text : String) : Bool :=
  !text.isEmpty

/-- A count below `2 ^ 32`, with an optional sign; a negative count can only be zero. -/
def count? (text : String) : Option Nat :=
  let read := fun (digits : List Char) (negative : Bool) =>
    if digits.isEmpty || !digits.all Char.isDigit then
      none
    else
      let n := digits.foldl (fun n c => 10 * n + (c.toNat - '0'.toNat)) 0
      if n < (if negative then 1 else UInt32.size) then some n else none
  match text.toList with
  | '-' :: digits => read digits true
  | '+' :: digits => read digits false
  | digits => read digits false

/-- The text is a count. -/
def acceptsCount (text : String) : Bool :=
  (count? text).isSome

/-- An argument that could only be an option, so it is no value of another one. -/
def looksLikeOption (argument : String) : Bool :=
  argument.toList.head? == some '-' && argument != "-"

namespace ArgumentRules

/-- The rule for an option with a long name. -/
def long? (rules : ArgumentRules) (name : String) : Option OptionRule :=
  rules.options.find? fun rule => rule.long == name

/-- The rule for an option with a short name. -/
def short? (rules : ArgumentRules) (name : Char) : Option OptionRule :=
  rules.options.find? fun rule => rule.short == some name

/-- Add a flag. -/
def giveFlag (given : Arguments) (rule : OptionRule) : Except Interruption Arguments :=
  match rule.kind with
  | .version => .error .version
  | .help => .error .help
  | _ =>
      if given.has rule.long then
        .error (.usage (.repeatedOption rule.long))
      else
        .ok ⟨given.options ++ [(rule.long, none)], given.operands⟩

/-- Add an option with its value. -/
def giveValue (given : Arguments) (rule : OptionRule) (value : String) :
    Except Interruption Arguments :=
  let add := fun (accepts : String → Bool) =>
    if accepts value then
      .ok ⟨given.options ++ [(rule.long, some value)], given.operands⟩
    else
      .error (.usage (.invalidValue rule.long value))
  match rule.kind with
  | .single accepts =>
      if given.has rule.long then
        .error (.usage (.repeatedOption rule.long))
      else
        add accepts
  | .repeated accepts => add accepts
  | _ => .error (.usage (.unexpectedValue rule.long))

/-- The option needs a value. -/
def takesValue (rule : OptionRule) : Bool :=
  match rule.kind with
  | .single _ | .repeated _ => true
  | _ => false

/-- Add an operand. -/
def giveOperand (rules : ArgumentRules) (given : Arguments) (operand : String) :
    Except Interruption Arguments :=
  if given.operands.length < rules.operands then
    if acceptsPath operand then
      .ok ⟨given.options, given.operands ++ [operand]⟩
    else
      .error (.usage (.invalidOperand operand))
  else
    .error (.usage (.extraOperand operand))

/-- Read a group of short options.  The last one may still lack its value. -/
def readGroup (rules : ArgumentRules) (given : Arguments) :
    List Char → Except Interruption (Arguments × Option OptionRule)
  | [] => .ok (given, none)
  | c :: cs =>
      match rules.short? c with
      | none => .error (.usage (.unknownOption ("-" ++ c.toString)))
      | some rule =>
          if takesValue rule then
            match cs with
            | [] => .ok (given, some rule)
            | '=' :: value => do return (← giveValue given rule (String.ofList value), none)
            | value => do return (← giveValue given rule (String.ofList value), none)
          else do
            readGroup rules (← giveFlag given rule) cs

/-- Read an option with a long name, and the value joined to it.  It may still lack its value. -/
def readLong (rules : ArgumentRules) (given : Arguments) (option : List Char) :
    Except Interruption (Arguments × Option OptionRule) :=
  let name := String.ofList (option.takeWhile (· != '='))
  match rules.long? name with
  | none => .error (.usage (.unknownOption ("--" ++ name)))
  | some rule =>
      match option.dropWhile (· != '=') with
      | _ :: value => do return (← giveValue given rule (String.ofList value), none)
      | [] =>
          if takesValue rule then
            .ok (given, some rule)
          else do
            return (← giveFlag given rule, none)

/-- Read one argument. -/
def readArgument (rules : ArgumentRules) (given : Arguments) (argument : String) :
    Except Interruption (Arguments × Option OptionRule) :=
  match argument.toList with
  | '-' :: '-' :: option => readLong rules given option
  | '-' :: c :: cs => readGroup rules given (c :: cs)
  | _ => do return (← giveOperand rules given argument, none)

/-- Read some arguments after those in `given`; the option `open?` still lacks its value. -/
def readAll (rules : ArgumentRules) (given : Arguments) (open? : Option OptionRule) :
    List String → Except Interruption Arguments
  | [] =>
      match open? with
      | some rule => .error (.usage (.missingValue rule.long))
      | none => .ok given
  | argument :: rest =>
      match open? with
      | some rule =>
          if looksLikeOption argument then
            .error (.usage (.missingValue rule.long))
          else do
            readAll rules (← giveValue given rule argument) none rest
      | none =>
          if argument = "--" then
            rest.foldlM (giveOperand rules) given
          else do
            let (given, open?) ← readArgument rules given argument
            readAll rules given open? rest

/-- How an option is written, with a mark for its value. -/
def usageOf (rule : OptionRule) : String :=
  (match rule.short with
    | some c => "-" ++ c.toString ++ ", "
    | none => "") ++ "--" ++ rule.long ++ (if takesValue rule then " VALUE" else "")

/-- A line for each option of a command, after one for the whole. -/
def usage (rules : ArgumentRules) (command : String) : String :=
  "Usage: " ++ command ++ " [OPTIONS]" ++ String.join (List.replicate rules.operands " FILE") ++
    "\n" ++ String.join (rules.options.map fun rule => "  " ++ usageOf rule ++ "\n")

/-- Read the arguments of a command. -/
def read (rules : ArgumentRules) (arguments : List String) : Except Interruption Arguments :=
  readAll rules ⟨[], []⟩ none arguments

end ArgumentRules

end MiniPascal
