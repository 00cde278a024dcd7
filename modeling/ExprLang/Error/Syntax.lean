import ExprLang.Decimal.Reading

/-!
# Syntax errors

A source that is no expression is refused with a cause and the offset, in bytes, at which
it was found. `SyntaxCause.message` holds the wording of all of them.
-/

namespace ExprLang

/-- Why a source is no expression. Tokens are given by their text. -/
inductive SyntaxCause where
  | emptyExpression
  | emptyDefinition
  | invalidCharacter (c : Char)
  | unterminatedString
  | unmatched (token : String)
  | unclosed (count : Nat)
  | tooDeep
  | unexpected (token : String)
  | unexpectedEnd
  | reservedWord (word : String)
  | parameterAfterKwargs
  | repeatedStar
  | bareStarLast
  | requiredAfterDefault
  | duplicateParameter (name : String)
  | missingElse
  | missingColon
  | starAfterDoubleStar
  | positionalAfterKeyword
  | leadingZeros
  | badInteger (text : String) (fault : NumeralFault)
  | badFloat (text : String)
  | notLambda
  deriving DecidableEq, Repr

/-- The cause in words. -/
def SyntaxCause.message : SyntaxCause → String
  | .emptyExpression => "empty expression"
  | .emptyDefinition => "a definition can't bind to an empty expression"
  | .invalidCharacter c => "invalid character '" ++ c.toString ++ "'"
  | .unterminatedString => "unterminated string literal"
  | .unmatched token => "unmatched '" ++ token ++ "'"
  | .unclosed count => Nat.repr count ++ " unclosed parentheses"
  | .tooDeep => "expression is nested too deeply"
  | .unexpected token => "unexpected '" ++ token ++ "'"
  | .unexpectedEnd => "unexpected end of input"
  | .reservedWord word => "reserved word '" ++ word ++ "' cannot appear in an expression"
  | .parameterAfterKwargs => "arguments cannot follow var-keyword argument"
  | .repeatedStar => "* argument may appear only once"
  | .bareStarLast => "named arguments must follow bare *"
  | .requiredAfterDefault => "non-default argument follows default argument"
  | .duplicateParameter name => "duplicate argument '" ++ name ++ "' in function definition"
  | .missingElse => "expected 'else' after 'if' expression"
  | .missingColon => "expected ':' in dict display"
  | .starAfterDoubleStar => "iterable argument unpacking follows keyword argument unpacking"
  | .positionalAfterKeyword => "positional argument follows keyword argument"
  | .leadingZeros =>
    "leading zeros in decimal integer literals are not permitted; " ++
      "use an 0o prefix for octal integers"
  | .badInteger text fault => "invalid integer literal '" ++ text ++ "': " ++ fault.message
  | .badFloat text => "invalid number literal '" ++ text ++ "': invalid float literal"
  | .notLambda => "expected a lambda expression"

/-- A syntax error: where it was found, and why. -/
structure SyntaxError where
  pos : Nat
  cause : SyntaxCause
  deriving DecidableEq, Repr

/-- The error as it is reported to a user. -/
def SyntaxError.report (e : SyntaxError) : String :=
  "syntax error at offset " ++ Nat.repr e.pos ++ ": " ++ e.cause.message

end ExprLang
