import ExprLang.Builtin
import ExprLang.Expr
import ExprLang.Number

/-!
# Values

What an expression evaluates to. Containers and functions carry an identity, a number that no
two of them made at different times share, for the operator `is`; iterators are known by the
place where their remaining items are kept. All other values are the same when they are equal.
-/

namespace ExprLang

/-- A number that tells one container or function from another. -/
abbrev Identity := Nat

/-- The place of a set of global definitions, to which functions made under it belong. -/
abbrev RealmId := Nat

/-- The place where the remaining items of an iterator are kept. -/
abbrev IteratorId := Nat

/-- A function that evaluating a lambda made: the lambda, a value for each of its defaults, the
variables around it with the innermost first, and the realm it belongs to. -/
structure Closure (ν : Type) where
  params : Params Expr
  body : Expr
  defaults : List (Option ν)
  keywordDefaults : List (Option ν)
  scope : List (String × ν)
  home : RealmId

/-- A method and the value it was looked up on. -/
structure BoundMethod (ν : Type) where
  receiver : ν
  method : Method

/-- A value. A dict holds its entries in the order in which their keys came in. -/
inductive Value where
  | none
  | bool (b : Bool)
  | int (n : Int64)
  | float (x : Double)
  | complex (z : Complex)
  | str (s : String)
  | tuple (id : Identity) (items : List Value)
  | list (id : Identity) (items : List Value)
  | dict (id : Identity) (entries : List (Value × Value))
  | iterator (id : IteratorId)
  | function (id : Identity) (closure : Closure Value)
  | builtin (b : Builtin)
  | method (id : Identity) (bound : BoundMethod Value)

instance : Inhabited Value := ⟨.none⟩

/-- Variables and what they stand for, the innermost first. -/
abbrev Scope := List (String × Value)

namespace Value

/-- The type of a value. -/
def typeName : Value → TypeName
  | none => .none
  | bool _ => .bool
  | int _ => .int
  | float _ => .float
  | complex _ => .complex
  | str _ => .str
  | tuple .. => .tuple
  | list .. => .list
  | dict .. => .dict
  | iterator _ => .iterator
  | function .. => .function
  | builtin _ => .builtin
  | method .. => .builtin

/-- A truth value as an integer. -/
def boolInt (b : Bool) : Int64 :=
  if b then 1 else 0

/-- The number a value is. Truth values are integers. -/
def number? : Value → Option Number
  | bool b => some (.int (boolInt b))
  | int n => some (.int n)
  | float x => some (.float x)
  | complex z => some (.complex z)
  | _ => Option.none

/-- The integer a value is. -/
def int? : Value → Option Int64
  | bool b => some (boolInt b)
  | int n => some n
  | _ => Option.none

/-- The real number a value is, as a float. -/
def real? : Value → Option Double
  | bool b => some (Number.int (boolInt b)).toFloat
  | int n => some (Number.int n).toFloat
  | float x => some x
  | _ => Option.none

/-- A number as a value. -/
def ofNumber : Number → Value
  | .int n => int n
  | .float x => float x
  | .complex z => complex z

/-- Whether a value counts as true. -/
def isTruthy : Value → Bool
  | none => false
  | bool b => b
  | int n => n != 0
  | float x => x != 0
  | complex z => z.re != 0 || z.im != 0
  | str s => !s.isEmpty
  | tuple _ items => !items.isEmpty
  | list _ items => !items.isEmpty
  | dict _ entries => !entries.isEmpty
  | _ => true

/-- Whether a value is `None`. -/
def isNone : Value → Bool
  | none => true
  | _ => false

/-- Whether a value is a string. -/
def isStr : Value → Bool
  | str _ => true
  | _ => false

/-- A character as a string. -/
def ofChar (c : Char) : Value :=
  str c.toString

/-- Whether two values are one and the same. -/
def same : Value → Value → Bool
  | none, none => true
  | bool a, bool b => a == b
  | int a, int b => a == b
  | float a, float b => a.same b
  | str a, str b => a == b
  | tuple a _, tuple b _ => a == b
  | list a _, list b _ => a == b
  | dict a _, dict b _ => a == b
  | iterator a, iterator b => a == b
  | function a _, function b _ => a == b
  | builtin a, builtin b => decide (a = b)
  | method a _, method b _ => a == b
  | _, _ => false

end Value

end ExprLang
