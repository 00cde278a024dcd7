import ExprLang.Expr.Printer
import ExprLang.Value

/-!
# The text of a value

`Value.text` is what the prompt shows. Strings are quoted there, and only there:
`Value.plainText` leaves a string as it is.
-/

namespace ExprLang

mutual
/-- The text of a value. -/
def Value.text : Value → String
  | .none => "None"
  | .bool true => "True"
  | .bool false => "False"
  | .int n => intText n.toInt
  | .float x => floatText x
  | .complex z => complexText z.re z.im
  | .str s => quoted s
  | .tuple _ items => tupleText (Value.texts items)
  | .list _ items => "[" ++ listed (Value.texts items) ++ "]"
  | .dict _ entries => "\x7b" ++ listed (Value.entryTexts entries) ++ "\x7d"
  | .iterator _ => "<iterator object>"
  | .function _ c => "<function " ++ (Expr.lambda c.params c.body).text ++ ">"
  | .builtin b => "<built-in function " ++ b.name ++ ">"
  | .method _ m =>
    "<built-in method " ++ m.method.name ++ " of " ++ m.receiver.typeName.text ++ " object>"

/-- The texts of values. -/
def Value.texts : List Value → List String
  | [] => []
  | v :: vs => v.text :: Value.texts vs

/-- The texts of the entries of a dict. -/
def Value.entryTexts : List (Value × Value) → List String
  | [] => []
  | (k, v) :: es => (k.text ++ ": " ++ v.text) :: Value.entryTexts es
end

/-- The text of a value, with a string left as it is. -/
def Value.plainText : Value → String
  | .str s => s
  | v => v.text

end ExprLang
