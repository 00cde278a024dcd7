/-!
# Commands of the prompt

A line that starts with a colon is a command. Each has a short and a long name, and some need an
argument. `usageText` describes them and the options of the program.
-/

namespace ExprLang

/-- The commands of the prompt. -/
inductive Command where
  | help
  | load
  | vars
  | reset
  deriving DecidableEq, Repr

namespace Command

/-- Every command, in the order in which they are listed. -/
def all : List Command :=
  [.help, .load, .vars, .reset]

/-- The long name of a command. -/
def longName : Command → String
  | .help => "help"
  | .load => "load"
  | .vars => "vars"
  | .reset => "reset"

/-- The short name of a command. -/
def shortName : Command → String
  | .help => "h"
  | .load => "l"
  | .vars => "v"
  | .reset => "r"

/-- Whether a command needs an argument. All others take none. -/
def needsArgument : Command → Bool
  | .load => true
  | .help | .vars | .reset => false

/-- What a command does. -/
def description : Command → String
  | .help => "print this message."
  | .load => "evaluate all lines from a file."
  | .vars => "list every definition and its value."
  | .reset => "forget every definition."

/-- The command of a short or long name. -/
def ofName? (name : String) : Option Command :=
  all.find? fun c => name == c.shortName || name == c.longName

/-- The first command with a long name that starts with a text. -/
def ofStart? (start : String) : Option Command :=
  all.find? fun c => c.longName.startsWith start

theorem ofName?_shortName (c : Command) : ofName? c.shortName = some c := by
  cases c <;> decide

theorem ofName?_longName (c : Command) : ofName? c.longName = some c := by
  cases c <;> decide

/-- The line that describes a command. -/
def usageLine (c : Command) : String :=
  ":" ++ c.shortName ++ ", :" ++ c.longName ++ (if c.needsArgument then " <file>" else "") ++ "\t"
    ++ c.description

end Command

/-- What the program does, how it is run, and its options. -/
def usageLines : List String :=
  ["An evaluator for lambda expressions.",
   "Lines of the form `name = expr` or `name := expr` define a global;",
   "any other line is evaluated and its value printed.",
   "End a line with `\\` to continue it on the next one.",
   "",
   "Usage: lambded [-d N] [FILE...]",
   "       lambded -n [FILE]",
   "",
   "Options:",
   "-h, --help\t\tprint this message and exit.",
   "-n, --no-interactive\tevaluate FILE, or stdin, and exit.",
   "-d, --max-depth N\tnesting limit for function calls (default 1000).",
   "",
   "Available commands:"]

/-- The description of the program and of the commands of the prompt. -/
def usageText : String :=
  String.join ((usageLines ++ Command.all.map Command.usageLine).map (· ++ "\n"))

end ExprLang
