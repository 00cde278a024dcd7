import ExprLang.Decimal.Notation
import ExprLang.Expr
import ExprLang.Text.Quoted

/-!
# The text of an expression

`Expr.text` writes a tree in one canonical way: one blank around binary operators, none
inside brackets, and brackets around an operand exactly when `Expr.isCompound` holds of it,
whatever the operators are.
-/

namespace ExprLang

/-- The text of a literal. -/
def Literal.text : Literal → String
  | .none => "None"
  | .bool true => "True"
  | .bool false => "False"
  | .int n => intText n.toInt
  | .float x => floatText x
  | .imaginary x => partText x ++ "j"
  | .str s => quoted s

/-- Whether a literal is put in brackets as an operand. -/
def Literal.isCompound : Literal → Bool
  | .int n => n < 0
  | .float _ => true
  | .imaginary _ => true
  | _ => false

/-- Whether an expression is put in brackets as an operand. -/
def Expr.isCompound : Expr → Bool
  | .literal value => value.isCompound
  | .unary .. | .binary .. | .bool .. | .not _ | .compare .. | .conditional .. | .lambda .. => true
  | _ => false

/-- A text, in brackets or not. -/
def bracketed (needed : Bool) (text : String) : String :=
  if needed then "(" ++ text ++ ")" else text

/-- Texts separated by commas. -/
def listed (texts : List String) : String :=
  ", ".intercalate texts

/-- The items of a tuple in brackets. A single one is followed by a comma. -/
def tupleText (texts : List String) : String :=
  match texts with
  | [only] => "(" ++ only ++ ",)"
  | _ => "(" ++ listed texts ++ ")"

/-- The parameters of a function, given the texts of those with a name. A bare star announces
keyword-only parameters where no `*name` does. -/
def paramsText (positional : List String) (varargs : Option String) (keywordOnly : List String)
    (kwargs : Option String) : String :=
  let star :=
    match varargs with
    | some name => ["*" ++ name]
    | none => if keywordOnly.isEmpty then [] else ["*"]
  listed (positional ++ star ++ keywordOnly ++ (kwargs.map ("**" ++ ·)).toList)

/-- A function, given the texts of its parameters and of its body. -/
def lambdaText (params body : String) : String :=
  if params.isEmpty then "lambda: " ++ body else "lambda " ++ params ++ ": " ++ body

mutual
/-- The canonical text of an expression. -/
def Expr.text : Expr → String
  | .literal value => value.text
  | .var name => name
  | .tuple items => tupleText (Expr.texts items)
  | .list items => "[" ++ listed (Expr.texts items) ++ "]"
  | .dict entries => "\x7b" ++ listed (Expr.entryTexts entries) ++ "\x7d"
  | .unary op operand => op.text ++ bracketed operand.isCompound operand.text
  | .binary op left right =>
    bracketed left.isCompound left.text ++ " " ++ op.text ++ " "
      ++ bracketed right.isCompound right.text
  | .bool op left right =>
    bracketed left.isCompound left.text ++ " " ++ op.text ++ " "
      ++ bracketed right.isCompound right.text
  | .not operand => "not " ++ bracketed operand.isCompound operand.text
  | .compare first links => bracketed first.isCompound first.text ++ Expr.linksText links
  | .conditional test yes no =>
    bracketed yes.isCompound yes.text ++ " if " ++ bracketed test.isCompound test.text ++ " else "
      ++ bracketed no.isCompound no.text
  | .attribute target name => bracketed target.isCompound target.text ++ "." ++ name
  | .item target index => bracketed target.isCompound target.text ++ "[" ++ index.text ++ "]"
  | .slice target lower upper step =>
    bracketed target.isCompound target.text ++ "[" ++ Expr.optionText "" lower ++ ":"
      ++ Expr.optionText "" upper ++ Expr.optionText ":" step ++ "]"
  | .call callee args =>
    bracketed callee.isCompound callee.text ++ "(" ++ listed (Expr.argTexts args) ++ ")"
  | .lambda params body => lambdaText (Expr.paramsText params) body.text

/-- The texts of expressions. -/
def Expr.texts : List Expr → List String
  | [] => []
  | e :: es => e.text :: Expr.texts es

/-- The texts of the entries of a dict display. -/
def Expr.entryTexts : List (Expr × Expr) → List String
  | [] => []
  | (k, v) :: es => (k.text ++ ": " ++ v.text) :: Expr.entryTexts es

/-- The text of the links of a comparison chain. -/
def Expr.linksText : List (Comparison × Expr) → String
  | [] => ""
  | (op, e) :: es =>
    " " ++ op.text ++ " " ++ bracketed e.isCompound e.text ++ Expr.linksText es

/-- The text of an expression that may be absent, after `mark` if it is there. -/
def Expr.optionText (mark : String) : Option Expr → String
  | none => ""
  | some e => mark ++ e.text

/-- The texts of the arguments of a call. -/
def Expr.argTexts : List (Argument Expr) → List String
  | [] => []
  | .positional e :: as => e.text :: Expr.argTexts as
  | .star e :: as => ("*" ++ e.text) :: Expr.argTexts as
  | .keyword name e :: as => (name ++ "=" ++ e.text) :: Expr.argTexts as
  | .doubleStar e :: as => ("**" ++ e.text) :: Expr.argTexts as

/-- The texts of parameters with a name. -/
def Expr.paramTexts : List (Param Expr) → List String
  | [] => []
  | ⟨name, default⟩ :: ps => (name ++ Expr.optionText "=" default) :: Expr.paramTexts ps

/-- The text of the parameters of a function. -/
def Expr.paramsText : Params Expr → String
  | ⟨positional, varargs, keywordOnly, kwargs⟩ =>
    ExprLang.paramsText (Expr.paramTexts positional) varargs (Expr.paramTexts keywordOnly) kwargs
end

end ExprLang
