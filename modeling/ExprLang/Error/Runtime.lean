import ExprLang.Decimal.Notation
import ExprLang.Text.Quoted
import ExprLang.TypeName

/-!
# Runtime errors

What can go wrong while an expression is evaluated. Each error belongs to one of eleven
kinds (`RuntimeError.kind`) and says what it was about; `RuntimeError.message` holds the
wording of all of them.

A panic (`Panic`) is no error of the language and of a kind by itself. It ends the program and not
only the evaluation, and nothing in the language can ask for one: it stands where a step of machine
arithmetic leaves the range of its words and nothing looks whether it does.
-/

namespace ExprLang

/-! ## Kinds -/

/-- The kinds of runtime error, and one for all panics. -/
inductive ErrorKind where
  | typeError
  | valueError
  | zeroDivisionError
  | nameError
  | attributeError
  | indexError
  | keyError
  | overflowError
  | stopIteration
  | recursionError
  | keyboardInterrupt
  | panic
  deriving DecidableEq, Repr

/-- The name of a kind. -/
def ErrorKind.text : ErrorKind → String
  | .typeError => "TypeError"
  | .valueError => "ValueError"
  | .zeroDivisionError => "ZeroDivisionError"
  | .nameError => "NameError"
  | .attributeError => "AttributeError"
  | .indexError => "IndexError"
  | .keyError => "KeyError"
  | .overflowError => "OverflowError"
  | .stopIteration => "StopIteration"
  | .recursionError => "RecursionError"
  | .keyboardInterrupt => "KeyboardInterrupt"
  | .panic => "panic"

/-! ## Causes -/

/-- An operation on a value of a type that does not allow it. -/
inductive TypeCause where
  | notOrdered (symbol : String) (left right : TypeName)
  | unhashable (type : TypeName)
  | notIterable (type : TypeName)
  | substringOperand (type : TypeName)
  | noMembership (type : TypeName)
  | noLength (type : TypeName)
  | badIndex (container index : TypeName)
  | badSliceIndex
  | notSubscriptable (type : TypeName)
  | unsupportedOperands (operation : String) (left right : TypeName)
  | unsupportedOperand (operation : String) (type : TypeName)
  | notCallable (type : TypeName)
  | notInteger (type : TypeName)
  | notIterator (type : TypeName)
  | notReversible (type : TypeName)
  | notRoundable (type : TypeName)
  | tooManyArguments (function : String) (most given : Nat)
  | unexpectedKeyword (function key : String)
  | multipleValues (function key : String)
  | missingArgument (function parameter : String) (position : Nat)
  | tooManyPositional (least most given : Nat)
  | missingPositional (names : List String)
  | missingKeywordOnly (names : List String)
  | repeatedKeyword (key : String)
  | starNotIterable (type : TypeName)
  | doubleStarNotDict (type : TypeName)
  | keywordNotString
  | complexArgument (position : String) (type : TypeName)
  | complexSecondString
  | complexAfterString
  | floatArgument (type : TypeName)
  | intArgument (type : TypeName)
  | intBaseWithoutText
  | intMissingText
  | powModulus
  | sortedArity (given : Nat)
  | extremeArity (function : String)
  | extremeDefault (function : String)
  | sumOfStrings
  | notString (function : String) (type : TypeName)
  | notAffix (function : String) (type : TypeName)
  | joinItem (index : Nat) (type : TypeName)
  deriving DecidableEq, Repr

/-- A value of the right type that is out of an operation's domain. -/
inductive ValueCause where
  | zeroStep
  | negativeShift
  | malformedComplex
  | malformedFloat (text : String)
  | malformedInt (base : Int) (text : String)
  | badBase
  | nanToInt
  | zeroModulus
  | notInvertible
  | emptySequence (function : String)
  | notInList (item : String)
  | notInTuple
  | emptySeparator
  deriving DecidableEq, Repr

/-- A division by zero, or a power that needs one. -/
inductive DivisionCause where
  | intTrue
  | intFloor
  | floatTrue
  | floatFloor
  | floatModulo
  | complexTrue
  | negativePower
  | complexPower
  deriving DecidableEq, Repr

/-- A result out of range. -/
inductive OverflowCause where
  | integer
  | float
  | infinityToInt
  | repetition
  deriving DecidableEq, Repr

/-- A step of arithmetic on words of which the result does not fit, with nothing that looks whether
it does. -/
inductive Panic where
  | addition
  | subtraction
  | multiplication
  | division
  | remainder
  | negation
  deriving DecidableEq, Repr

/-- What an evaluation can end in if not in a value: an error, or a panic. Names are given by their
text, keys by the text of the value. -/
inductive RuntimeError where
  | type (cause : TypeCause)
  | value (cause : ValueCause)
  | division (cause : DivisionCause)
  | unbound (name : String)
  | noAttribute (type : TypeName) (name : String)
  | index (container : TypeName)
  | key (text : String)
  | overflow (cause : OverflowCause)
  | exhausted
  | tooManyCalls
  | interrupted
  | panic (cause : Panic)
  deriving DecidableEq, Repr

/-! ## Wording -/

/-- A number of things, in words. -/
def counted (n : Nat) (word : String) : String :=
  Nat.repr n ++ " " ++ word ++ if n = 1 then "" else "s"

/-- Names in single quotes, listed with commas and an `and`. -/
def quotedNames (names : List String) : String :=
  let marked := names.map fun n => "'" ++ n ++ "'"
  match marked.reverse with
  | [] => ""
  | [only] => only
  | [second, first] => first ++ " and " ++ second
  | last :: before => ", ".intercalate before.reverse ++ ", and " ++ last

/-- The cause in words. -/
def TypeCause.message : TypeCause → String
  | .notOrdered symbol left right =>
    "'" ++ symbol ++ "' not supported between instances of '" ++ left.text ++ "' and '"
      ++ right.text ++ "'"
  | .unhashable type => "unhashable type: '" ++ type.text ++ "'"
  | .notIterable type => "'" ++ type.text ++ "' object is not iterable"
  | .substringOperand type =>
    "'in <string>' requires string as left operand, not " ++ type.text
  | .noMembership type => "argument of type '" ++ type.text ++ "' is not iterable"
  | .noLength type => "object of type '" ++ type.text ++ "' has no len()"
  | .badIndex container index =>
    container.text ++ " indices must be integers, not " ++ index.text
  | .badSliceIndex => "slice indices must be integers or None"
  | .notSubscriptable type => "'" ++ type.text ++ "' object is not subscriptable"
  | .unsupportedOperands operation left right =>
    "unsupported operand type(s) for " ++ operation ++ ": '" ++ left.text ++ "' and '"
      ++ right.text ++ "'"
  | .unsupportedOperand operation type =>
    "bad operand type for " ++ operation ++ ": '" ++ type.text ++ "'"
  | .notCallable type => "'" ++ type.text ++ "' object is not callable"
  | .notInteger type => "'" ++ type.text ++ "' object cannot be interpreted as an integer"
  | .notIterator type => "'" ++ type.text ++ "' object is not an iterator"
  | .notReversible type => "'" ++ type.text ++ "' object is not reversible"
  | .notRoundable type => "type " ++ type.text ++ " doesn't define __round__ method"
  | .tooManyArguments function most given =>
    function ++ "() takes at most " ++ Nat.repr most ++ " arguments (" ++ Nat.repr given
      ++ " given)"
  | .unexpectedKeyword function key =>
    function ++ "() got an unexpected keyword argument '" ++ key ++ "'"
  | .multipleValues function key =>
    function ++ "() got multiple values for argument '" ++ key ++ "'"
  | .missingArgument function parameter position =>
    function ++ "() missing required argument '" ++ parameter ++ "' (pos "
      ++ Nat.repr position ++ ")"
  | .tooManyPositional least most given =>
    "<lambda>() takes " ++
      (if least = most then counted most "positional argument"
        else "from " ++ Nat.repr least ++ " to " ++ Nat.repr most ++ " positional arguments")
      ++ " but " ++ Nat.repr given ++ (if given = 1 then " was" else " were") ++ " given"
  | .missingPositional names =>
    "<lambda>() missing " ++ counted names.length "required positional argument" ++ ": "
      ++ quotedNames names
  | .missingKeywordOnly names =>
    "<lambda>() missing " ++ counted names.length "required keyword-only argument" ++ ": "
      ++ quotedNames names
  | .repeatedKeyword key => "got multiple values for keyword argument '" ++ key ++ "'"
  | .starNotIterable type => "argument after * must be an iterable, not " ++ type.text
  | .doubleStarNotDict type => "argument after ** must be a mapping, not " ++ type.text
  | .keywordNotString => "keywords must be strings"
  | .complexArgument position type =>
    "complex() " ++ position ++ " argument must be a string or a number, not '" ++ type.text
      ++ "'"
  | .complexSecondString => "complex() second arg can't be a string"
  | .complexAfterString => "complex() can't take second arg if first is a string"
  | .floatArgument type =>
    "float() argument must be a string or a real number, not '" ++ type.text ++ "'"
  | .intArgument type =>
    "int() argument must be a string, a bytes-like object or a real number, not '" ++ type.text
      ++ "'"
  | .intBaseWithoutText => "int() can't convert non-string with explicit base"
  | .intMissingText => "int() missing string argument"
  | .powModulus => "pow() 3rd argument not allowed unless all arguments are integers"
  | .sortedArity given => "sorted expected 1 argument, got " ++ Nat.repr given
  | .extremeArity function => function ++ " expected at least 1 argument, got 0"
  | .extremeDefault function =>
    "Cannot specify a default for " ++ function ++ "() with multiple positional arguments"
  | .sumOfStrings => "sum() can't sum strings [use ''.join(seq) instead]"
  | .notString function type =>
    function ++ "() argument must be str, not " ++ type.text
  | .notAffix function type =>
    function ++ " first arg must be str or a tuple of str, not " ++ type.text
  | .joinItem index type =>
    "sequence item " ++ Nat.repr index ++ ": expected str instance, " ++ type.text ++ " found"

/-- The cause in words. -/
def ValueCause.message : ValueCause → String
  | .zeroStep => "slice step cannot be zero"
  | .negativeShift => "negative shift count"
  | .malformedComplex => "complex() arg is a malformed string"
  | .malformedFloat text => "could not convert string to float: " ++ quoted text
  | .malformedInt base text =>
    "invalid literal for int() with base " ++ intText base ++ ": " ++ quoted text
  | .badBase => "int() base must be >= 2 and <= 36, or 0"
  | .nanToInt => "cannot convert float NaN to integer"
  | .zeroModulus => "pow() 3rd argument cannot be 0"
  | .notInvertible => "base is not invertible for the given modulus"
  | .emptySequence function => function ++ "() arg is an empty sequence"
  | .notInList item => item ++ " is not in list"
  | .notInTuple => "tuple.index(x): x not in tuple"
  | .emptySeparator => "empty separator"

/-- The cause in words. -/
def DivisionCause.message : DivisionCause → String
  | .intTrue => "division by zero"
  | .intFloor => "integer division or modulo by zero"
  | .floatTrue => "float division by zero"
  | .floatFloor => "float floor division by zero"
  | .floatModulo => "float modulo"
  | .complexTrue => "complex division by zero"
  | .negativePower => "0.0 cannot be raised to a negative power"
  | .complexPower => "0.0 to a negative or complex power"

/-- The cause in words. -/
def OverflowCause.message : OverflowCause → String
  | .integer => "integer result out of range"
  | .float => "numerical result out of range"
  | .infinityToInt => "cannot convert float infinity to integer"
  | .repetition => "repeated sequence is too long"

/-- The cause in words. -/
def Panic.message : Panic → String
  | .addition => "attempt to add with overflow"
  | .subtraction => "attempt to subtract with overflow"
  | .multiplication => "attempt to multiply with overflow"
  | .division => "attempt to divide with overflow"
  | .remainder => "attempt to calculate the remainder with overflow"
  | .negation => "attempt to negate with overflow"

/-- The kind an error belongs to. -/
def RuntimeError.kind : RuntimeError → ErrorKind
  | .type _ => .typeError
  | .value _ => .valueError
  | .division _ => .zeroDivisionError
  | .unbound _ => .nameError
  | .noAttribute .. => .attributeError
  | .index _ => .indexError
  | .key _ => .keyError
  | .overflow _ => .overflowError
  | .exhausted => .stopIteration
  | .tooManyCalls => .recursionError
  | .interrupted => .keyboardInterrupt
  | .panic _ => .panic

/-- The error in words, without its kind. -/
def RuntimeError.message : RuntimeError → String
  | .type cause => cause.message
  | .value cause => cause.message
  | .division cause => cause.message
  | .unbound name => "name '" ++ name ++ "' is not defined"
  | .noAttribute receiver name =>
    "'" ++ receiver.text ++ "' object has no attribute '" ++ name ++ "'"
  | .index container => container.text ++ " index out of range"
  | .key text => text
  | .overflow cause => cause.message
  | .exhausted => ""
  | .tooManyCalls => "maximum recursion depth exceeded"
  | .interrupted => "evaluation interrupted"
  | .panic cause => cause.message

/-- The error as it is reported to a user. -/
def RuntimeError.report (e : RuntimeError) : String :=
  e.kind.text ++ ": " ++ e.message

end ExprLang
