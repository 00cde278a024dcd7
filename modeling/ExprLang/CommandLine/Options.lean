import ExprLang.Decimal.Reading
import ExprLang.Store

/-!
# Options

What the arguments of the program ask for. They are read from left to right: a request for help
ends the reading, and so does the first fault. What is no option is a file to load.
-/

namespace ExprLang

/-- What a run of the program is to do. -/
structure Options where
  /-- How many calls may be in progress. -/
  maxDepth : Nat
  /-- The files to load, in order. -/
  files : List String
  /-- Whether a prompt follows the files. -/
  interactive : Bool
  deriving DecidableEq, Repr

/-- The options without any argument. -/
def Options.default : Options where
  maxDepth := defaultMaxDepth
  files := []
  interactive := true

/-- What the arguments ask for. -/
inductive Request where
  | usage
  | run (options : Options)
  deriving DecidableEq, Repr

/-- Why arguments are refused. -/
inductive OptionFault where
  | missingValue (option : String)
  | badValue (option value : String) (fault : NumeralFault)
  deriving DecidableEq, Repr

/-- The fault in words. -/
def OptionFault.message : OptionFault → String
  | .missingValue option => "option '" ++ option ++ "' needs a value"
  | .badValue option value fault =>
    "invalid value '" ++ value ++ "' for '" ++ option ++ "': " ++ fault.message

/-- The greatest limit on calls that can be asked for. -/
def greatestMaxDepth : Nat := Nat.pow 2 64 - 1

/-- Reads arguments into options. -/
def Options.read (options : Options) : List String → Except OptionFault Request
  | [] => .ok (.run options)
  | arg :: args =>
    if arg = "-h" ∨ arg = "--help" then .ok .usage
    else if arg = "-n" ∨ arg = "--no-interactive" then
      { options with interactive := false }.read args
    else if arg = "-d" ∨ arg = "--max-depth" then
      match args with
      | [] => .error (.missingValue arg)
      | value :: args =>
        match readNat 10 greatestMaxDepth value.toList with
        | .error fault => .error (.badValue arg value fault)
        | .ok depth => { options with maxDepth := depth }.read args
    else { options with files := options.files ++ [arg] }.read args

end ExprLang
