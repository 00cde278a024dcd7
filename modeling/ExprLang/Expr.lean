import ExprLang.Decimal.Double

/-!
# Expressions

The trees of the language. Parts that hold subexpressions of any kind, namely call arguments
and parameters, are types over the type of those subexpressions.
-/

namespace ExprLang

/-! ## Leaves and operators -/

/-- A literal. Integers are never negative in a parsed tree: a minus sign is an operator. -/
inductive Literal where
  | none
  | bool (b : Bool)
  | int (n : Int64)
  | float (x : Double)
  | imaginary (x : Double)
  | str (s : String)

/-- The operators with one operand. -/
inductive UnaryOp where
  | pos
  | neg
  | invert
  deriving DecidableEq, Repr

/-- The operators with two operands. -/
inductive BinaryOp where
  | add
  | sub
  | mul
  | div
  | floorDiv
  | mod
  | pow
  | matmul
  | shiftLeft
  | shiftRight
  | bitAnd
  | bitOr
  | bitXor
  deriving DecidableEq, Repr

/-- The operators that may leave their second operand unevaluated. -/
inductive BoolOp where
  | and
  | or
  deriving DecidableEq, Repr

/-- The links of a comparison chain. -/
inductive Comparison where
  | equal
  | notEqual
  | less
  | lessEqual
  | greater
  | greaterEqual
  | isIn
  | notIn
  | same
  | notSame
  deriving DecidableEq, Repr

/-- How an operator is written. -/
def UnaryOp.text : UnaryOp → String
  | .pos => "+"
  | .neg => "-"
  | .invert => "~"

/-- How an operator is written. -/
def BinaryOp.text : BinaryOp → String
  | .add => "+"
  | .sub => "-"
  | .mul => "*"
  | .div => "/"
  | .floorDiv => "//"
  | .mod => "%"
  | .pow => "**"
  | .matmul => "@"
  | .shiftLeft => "<<"
  | .shiftRight => ">>"
  | .bitAnd => "&"
  | .bitOr => "|"
  | .bitXor => "^"

/-- How an operator is written. -/
def BoolOp.text : BoolOp → String
  | .and => "and"
  | .or => "or"

/-- How a link is written. -/
def Comparison.text : Comparison → String
  | .equal => "=="
  | .notEqual => "!="
  | .less => "<"
  | .lessEqual => "<="
  | .greater => ">"
  | .greaterEqual => ">="
  | .isIn => "in"
  | .notIn => "not in"
  | .same => "is"
  | .notSame => "is not"

/-! ## Arguments and parameters -/

/-- An argument of a call. -/
inductive Argument (ε : Type) where
  | positional (value : ε)
  | star (value : ε)
  | keyword (name : String) (value : ε)
  | doubleStar (value : ε)

/-- A named parameter, with the default it may have. -/
structure Param (ε : Type) where
  name : String
  default : Option ε

/-- The parameters of a function. Those after `*name` or a bare `*` are given by keyword
only. -/
structure Params (ε : Type) where
  positional : List (Param ε)
  varargs : Option String
  keywordOnly : List (Param ε)
  kwargs : Option String

/-- The names of all parameters in the order of their declaration, the collecting ones with
their stars. -/
def Params.names {ε : Type} (ps : Params ε) : List String :=
  ps.positional.map (·.name) ++ (ps.varargs.map ("*" ++ ·)).toList
    ++ ps.keywordOnly.map (·.name) ++ (ps.kwargs.map ("**" ++ ·)).toList

/-! ## Trees -/

/-- An expression. -/
inductive Expr where
  | literal (value : Literal)
  | var (name : String)
  | tuple (items : List Expr)
  | list (items : List Expr)
  | dict (entries : List (Expr × Expr))
  | unary (op : UnaryOp) (operand : Expr)
  | binary (op : BinaryOp) (left right : Expr)
  | bool (op : BoolOp) (left right : Expr)
  | not (operand : Expr)
  | compare (first : Expr) (links : List (Comparison × Expr))
  | conditional (test yes no : Expr)
  | attribute (target : Expr) (name : String)
  | item (target index : Expr)
  | slice (target : Expr) (lower upper step : Option Expr)
  | call (callee : Expr) (args : List (Argument Expr))
  | lambda (params : Params Expr) (body : Expr)

/-- Whether an expression is a function. -/
def Expr.isLambda : Expr → Bool
  | .lambda .. => true
  | _ => false

end ExprLang
