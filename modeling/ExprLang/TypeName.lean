/-!
# The types of the language

Every value has one of twelve types. Builtin functions and methods of values share a type.
-/

namespace ExprLang

/-- The types a value can have. -/
inductive TypeName where
  | none
  | bool
  | int
  | float
  | complex
  | str
  | tuple
  | list
  | dict
  | iterator
  | function
  | builtin
  deriving DecidableEq, Repr

/-- The name of a type in messages and answers. -/
def TypeName.text : TypeName → String
  | .none => "NoneType"
  | .bool => "bool"
  | .int => "int"
  | .float => "float"
  | .complex => "complex"
  | .str => "str"
  | .tuple => "tuple"
  | .list => "list"
  | .dict => "dict"
  | .iterator => "iterator"
  | .function => "function"
  | .builtin => "builtin_function_or_method"

end ExprLang
