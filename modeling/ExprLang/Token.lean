import ExprLang.Text.Quoted

/-!
# Tokens

The words of the language: names, keywords, reserved words, numbers, strings, and the
operators and brackets of `Symbol`. Two tokens stand for what is no word: a character that
starts none, and a string without end. `Token.text` is how a token is shown.
-/

namespace ExprLang

/-! ## Keywords -/

/-- The words with a meaning inside an expression. -/
inductive Keyword where
  | falseWord
  | noneWord
  | trueWord
  | andWord
  | orWord
  | notWord
  | inWord
  | isWord
  | lambdaWord
  | ifWord
  | elseWord
  deriving DecidableEq, Repr

/-- How a keyword is spelt. -/
def Keyword.text : Keyword → String
  | .falseWord => "False"
  | .noneWord => "None"
  | .trueWord => "True"
  | .andWord => "and"
  | .orWord => "or"
  | .notWord => "not"
  | .inWord => "in"
  | .isWord => "is"
  | .lambdaWord => "lambda"
  | .ifWord => "if"
  | .elseWord => "else"

/-- Every keyword. -/
def Keyword.all : List Keyword :=
  [.falseWord, .noneWord, .trueWord, .andWord, .orWord, .notWord, .inWord, .isWord, .lambdaWord,
   .ifWord, .elseWord]

/-- The keyword spelt `word`. -/
def Keyword.ofText? (word : String) : Option Keyword :=
  Keyword.all.find? (·.text == word)

/-- The words that can name no variable: the keywords, and words that mean nothing inside an
expression. -/
def reservedWords : List String :=
  ["False", "None", "True", "and", "as", "assert", "async", "await", "break", "class",
   "continue", "def", "del", "elif", "else", "except", "finally", "for", "from", "global", "if",
   "import", "in", "is", "lambda", "nonlocal", "not", "or", "pass", "raise", "return", "try",
   "while", "with", "yield"]

/-- Whether `word` can name no variable. -/
def isReservedWord (word : String) : Bool :=
  reservedWords.contains word

/-! ## Symbols -/

/-- Operators and punctuation. -/
inductive Symbol where
  | power
  | floorDivide
  | shiftLeft
  | shiftRight
  | lessEqual
  | greaterEqual
  | equal
  | notEqual
  | define
  | plus
  | minus
  | star
  | slash
  | percent
  | atSign
  | ampersand
  | pipe
  | caret
  | tilde
  | less
  | greater
  | openParen
  | closeParen
  | openBracket
  | closeBracket
  | openBrace
  | closeBrace
  | comma
  | colon
  | dot
  | assign
  deriving DecidableEq, Repr

/-- How a symbol is spelt. -/
def Symbol.text : Symbol → String
  | .power => "**"
  | .floorDivide => "//"
  | .shiftLeft => "<<"
  | .shiftRight => ">>"
  | .lessEqual => "<="
  | .greaterEqual => ">="
  | .equal => "=="
  | .notEqual => "!="
  | .define => ":="
  | .plus => "+"
  | .minus => "-"
  | .star => "*"
  | .slash => "/"
  | .percent => "%"
  | .atSign => "@"
  | .ampersand => "&"
  | .pipe => "|"
  | .caret => "^"
  | .tilde => "~"
  | .less => "<"
  | .greater => ">"
  | .openParen => "("
  | .closeParen => ")"
  | .openBracket => "["
  | .closeBracket => "]"
  | .openBrace => "\x7b"
  | .closeBrace => "\x7d"
  | .comma => ","
  | .colon => ":"
  | .dot => "."
  | .assign => "="

/-- Every symbol, the longer ones first. -/
def Symbol.all : List Symbol :=
  [.power, .floorDivide, .shiftLeft, .shiftRight, .lessEqual, .greaterEqual, .equal, .notEqual,
   .define, .plus, .minus, .star, .slash, .percent, .atSign, .ampersand, .pipe, .caret, .tilde,
   .less, .greater, .openParen, .closeParen, .openBracket, .closeBracket, .openBrace,
   .closeBrace, .comma, .colon, .dot, .assign]

/-! ## Tokens -/

/-- A word of the language, or what stands where none does. Numbers keep their spelling; an
imaginary number keeps it without its final letter. -/
inductive Token where
  | invalid (c : Char)
  | unterminated
  | name (text : String)
  | keyword (word : Keyword)
  | reserved (word : String)
  | int (text : String)
  | float (text : String)
  | imaginary (text : String)
  | str (value : String)
  | symbol (s : Symbol)
  deriving DecidableEq, Repr

/-- How a token is shown. -/
def Token.text : Token → String
  | .invalid c => c.toString
  | .unterminated => "unterminated string"
  | .name text => text
  | .keyword word => word.text
  | .reserved word => word
  | .int text => text
  | .float text => text
  | .imaginary text => text ++ "j"
  | .str value => quoted value
  | .symbol s => s.text

/-- A token and where it stands: the offsets, in bytes, of its start and of what follows. -/
structure Located where
  start : Nat
  stop : Nat
  token : Token
  deriving DecidableEq, Repr

end ExprLang
