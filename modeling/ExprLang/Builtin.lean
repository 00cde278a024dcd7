import ExprLang.TypeName

/-!
# Builtin functions and methods, by name

The functions that are there without a definition, and the methods that values of some types
have. Each has one name; a method name that several types share is one method.
-/

namespace ExprLang

/-! ## Functions -/

/-- The builtin functions. -/
inductive Builtin where
  | abs
  | bool
  | complex
  | divmod
  | float
  | hash
  | hex
  | int
  | iter
  | len
  | list
  | max
  | min
  | next
  | oct
  | pow
  | reversed
  | round
  | sorted
  | str
  | sum
  | tuple
  deriving DecidableEq, Repr

/-- The name of a builtin function. -/
def Builtin.name : Builtin → String
  | .abs => "abs"
  | .bool => "bool"
  | .complex => "complex"
  | .divmod => "divmod"
  | .float => "float"
  | .hash => "hash"
  | .hex => "hex"
  | .int => "int"
  | .iter => "iter"
  | .len => "len"
  | .list => "list"
  | .max => "max"
  | .min => "min"
  | .next => "next"
  | .oct => "oct"
  | .pow => "pow"
  | .reversed => "reversed"
  | .round => "round"
  | .sorted => "sorted"
  | .str => "str"
  | .sum => "sum"
  | .tuple => "tuple"

/-- Every builtin function, by name. -/
def Builtin.all : List Builtin :=
  [.abs, .bool, .complex, .divmod, .float, .hash, .hex, .int, .iter, .len, .list, .max, .min,
   .next, .oct, .pow, .reversed, .round, .sorted, .str, .sum, .tuple]

/-- The builtin function of a name. -/
def Builtin.ofName? (name : String) : Option Builtin :=
  Builtin.all.find? (·.name == name)

theorem Builtin.ofName?_name (b : Builtin) : Builtin.ofName? b.name = some b := by
  cases b <;> decide

theorem Builtin.name_of_ofName? {name : String} {b : Builtin} (h : Builtin.ofName? name = some b) :
    b.name = name := by
  simpa using List.find?_some h

/-! ## Methods -/

/-- The methods of values. -/
inductive Method where
  | conjugate
  | bitLength
  | isInteger
  | upper
  | lower
  | strip
  | lstrip
  | rstrip
  | split
  | startswith
  | endswith
  | replace
  | join
  | find
  | count
  | index
  | get
  | keys
  | values
  | items
  deriving DecidableEq, Repr

/-- The name of a method. -/
def Method.name : Method → String
  | .conjugate => "conjugate"
  | .bitLength => "bit_length"
  | .isInteger => "is_integer"
  | .upper => "upper"
  | .lower => "lower"
  | .strip => "strip"
  | .lstrip => "lstrip"
  | .rstrip => "rstrip"
  | .split => "split"
  | .startswith => "startswith"
  | .endswith => "endswith"
  | .replace => "replace"
  | .join => "join"
  | .find => "find"
  | .count => "count"
  | .index => "index"
  | .get => "get"
  | .keys => "keys"
  | .values => "values"
  | .items => "items"

/-- The methods that the values of a type have. -/
def Method.ofType : TypeName → List Method
  | .bool | .int => [.conjugate, .bitLength]
  | .float => [.conjugate, .isInteger]
  | .complex => [.conjugate]
  | .str =>
    [.upper, .lower, .strip, .lstrip, .rstrip, .split, .startswith, .endswith, .replace, .join,
     .find, .count]
  | .tuple | .list => [.count, .index]
  | .dict => [.get, .keys, .values, .items]
  | .none | .iterator | .function | .builtin => []

/-- The method of a name that the values of a type have. -/
def Method.ofName? (type : TypeName) (name : String) : Option Method :=
  (Method.ofType type).find? (·.name == name)

end ExprLang
