import ExprLang.Builtin
import ExprLang.Decimal.Notation
import ExprLang.Expr
import ExprLang.Text.Names

/-!
# Source in fragments

Expressions are put together as lists of source fragments. Every combinator wraps the fragments
it is given in brackets and adds fragments of its own, so no fragment is ever changed or cut.
What stands on the right of an operator is put in as it is, without brackets.

A fragment that is a name as a whole can be found again: `freeNames` lists those that are
registered, in an order in which they can be the parameters of a lambda, and `lambdaSource` is
that lambda.
-/

namespace ExprLang

/-- The source of an expression, in pieces. -/
abbrev Fragments := List String

/-- The source that fragments make up. -/
def Fragments.text (fs : Fragments) : String :=
  String.join fs

/-! ## Operands -/

/-- What a combinator puts in beside the fragments it works on. -/
inductive Operand where
  | text (source : String)
  | int (n : Int)
  | float (x : Double)
  | bool (b : Bool)
  | draft (fragments : Fragments)

/-- The kind of an operand, as errors name it. -/
def Operand.kind : Operand → String
  | .text _ => "str"
  | .int _ => "int"
  | .float _ => "float"
  | .bool _ => "bool"
  | .draft _ => "LambdaExpr"

/-- The source of an operand. -/
def Operand.source : Operand → String
  | .text source => source
  | .int n => intText n
  | .float x => floatText x
  | .bool b => if b then "True" else "False"
  | .draft fragments => fragments.text

/-- The fragments of an operand. -/
def Operand.fragments : Operand → Fragments
  | .draft fragments => fragments
  | operand => [operand.source]

/-! ## Combinators -/

namespace Fragments

variable (fs : Fragments)

/-- The fragments between two others. -/
def wrap (before after : String) : Fragments :=
  before :: fs ++ [after]

/-- An attribute. -/
def attr (name : String) : Fragments :=
  fs.wrap "(" (")." ++ name)

/-- An operator with one operand. -/
def unary (op : UnaryOp) : Fragments :=
  fs.wrap (op.text ++ "(") ")"

/-- A builtin function applied. -/
def passTo (b : Builtin) : Fragments :=
  fs.wrap (b.name ++ "(") ")"

/-- A builtin function applied together with a second argument. -/
def passWith (b : Builtin) (second : Fragments) : Fragments :=
  [b.name ++ "("] ++ fs ++ [","] ++ second ++ [")"]

/-- Any operator between the fragments and an operand. -/
def collapse (op : String) (right : Operand) : Fragments :=
  ["("] ++ fs ++ [")", op] ++ right.fragments

/-- An arithmetic operator. -/
def binary (op : BinaryOp) (right : Operand) : Fragments :=
  fs.collapse op.text right

/-- A comparison. -/
def compare (link : Comparison) (right : Operand) : Fragments :=
  fs.collapse link.text right

/-- The quotient and the remainder. -/
def divmod (right : Operand) : Fragments :=
  fs.passWith .divmod right.fragments

/-- The number rounded to places, or to an integer. -/
def round (places : Option Operand) : Fragments :=
  fs.passWith .round (places.elim ["None"] Operand.fragments)

/-- The membership of an item. -/
def contains (item : Operand) : Fragments :=
  item.fragments ++ [" in ("] ++ fs ++ [")"]

/-- An item or a value under a key. -/
def getItem (key : Operand) : Fragments :=
  ["("] ++ fs ++ [")["] ++ key.fragments ++ ["]"]

/-- An assignment to an item. It is no expression, so it never compiles. -/
def setItem (key value : Operand) : Fragments :=
  fs.getItem key ++ ["="] ++ value.fragments

/-- The removal of an item. It is no expression, so it never compiles. -/
def delItem (key : Operand) : Fragments :=
  ["del ("] ++ fs ++ [")["] ++ key.fragments ++ ["]"]

/-- The arguments of a call with commas between them, each made of its own fragments. -/
def listing : List Fragments → Fragments
  | [] => []
  | [argument] => argument
  | argument :: rest => argument ++ [","] ++ listing rest

/-- Keyword arguments after `count` others. The comma belongs to the fragment of the name. -/
def keywordListing (count : Nat) : List (String × String) → Fragments
  | [] => []
  | (name, source) :: rest =>
    [(if count = 0 then "" else ",") ++ name ++ "=", source] ++ keywordListing (count + 1) rest

/-- A call with arguments given as source. -/
def apply (args : List String) (keywords : List (String × String)) : Fragments :=
  ["("] ++ fs ++ [")("] ++ listing (args.map ([·])) ++ keywordListing args.length keywords ++ [")"]

end Fragments

/-! ## Names in fragments -/

/-- The place of a parameter among others: after those without a star come `*` and then `**`
parameters. -/
def paramRank (name : String) : Nat :=
  if name.startsWith "**" then 2 else if name.startsWith "*" then 1 else 0

/-- Whether a parameter may stand before another in the order of parameters. -/
def paramLe (a b : String) : Bool :=
  paramRank a < paramRank b || (paramRank a == paramRank b && !decide (b < a))

/-- The fragments that are registered names, each once, in the order of parameters. -/
def Fragments.freeNames (registered : String → Bool) (fs : Fragments) : List String :=
  ((fs.filter registered).mergeSort paramLe).eraseDups

/-- The lambda that has the names in the fragments as its parameters. -/
def Fragments.lambdaSource (registered : String → Bool) (fs : Fragments) : String :=
  "lambda " ++ ",".intercalate (fs.freeNames registered) ++ ":" ++ fs.text

end ExprLang
