import ExprLang.Proofs.Printing.Written

/-!
# The text of an expression from the texts of its parts

Each kind of node has an equation for its text as a list of characters. A part stands in it by its
own text (`Expr.text`) or as an operand, perhaps in brackets (`Expr.operandText`), and the parts of
a list, a chain, a call or a function are texts of their own.
-/

namespace ExprLang

/-- The text of an expression as an operand. -/
def Expr.operandText (e : Expr) : List Char :=
  (bracketed e.isCompound e.text).toList

attribute [local simp] Expr.text Expr.operandText

/-- Compound operands are put in brackets. -/
theorem Expr.operandText_of_compound {e : Expr} (h : e.isCompound = true) :
    e.operandText = '(' :: (e.text.toList ++ [')']) := by
  simp [bracketed, h]

/-- Others are printed as they are. -/
theorem Expr.operandText_of_not_compound {e : Expr} (h : e.isCompound = false) :
    e.operandText = e.text.toList := by
  simp [bracketed, h]

/-! ## Integers -/

/-- A non-negative integer is put in no brackets. -/
theorem Expr.isCompound_int {n : Int64} (hn : 0 ≤ n.toInt) :
    (Expr.literal (.int n)).isCompound = false := by
  simp only [Expr.isCompound, Literal.isCompound, decide_eq_false_iff_not, Int64.lt_iff_toInt_lt]
  exact Int.not_lt.2 hn

/-- A non-negative integer is printed as its digits. -/
theorem Expr.text_int {n : Int64} (hn : 0 ≤ n.toInt) :
    (Expr.literal (.int n)).text = Nat.repr n.toInt.natAbs := by
  have hneg : ¬n.toInt < 0 := by omega
  simp [Literal.text, intText, hneg]

/-! ## Operators -/

/-- A sign stands right in front of its operand. -/
theorem Expr.text_unary (op : UnaryOp) (e : Expr) :
    (Expr.unary op e).text.toList = op.text.toList ++ e.operandText := by
  simp

theorem Expr.text_binary (op : BinaryOp) (l r : Expr) :
    (Expr.binary op l r).text.toList
      = l.operandText ++ ' ' :: (op.text.toList ++ ' ' :: r.operandText) := by
  simp

theorem Expr.text_bool (op : BoolOp) (l r : Expr) :
    (Expr.bool op l r).text.toList
      = l.operandText ++ ' ' :: (op.text.toList ++ ' ' :: r.operandText) := by
  simp

theorem Expr.text_not (e : Expr) : (Expr.not e).text.toList = "not ".toList ++ e.operandText := by
  simp

theorem Expr.text_conditional (test yes no : Expr) :
    (Expr.conditional test yes no).text.toList
      = yes.operandText ++ " if ".toList ++ test.operandText ++ " else ".toList
        ++ no.operandText := by
  simp

/-- Links are printed one after the other. -/
theorem Expr.toList_linksText (links : List (Comparison × Expr)) :
    (Expr.linksText links).toList = links.flatMap fun l => linkText l.1 l.2.operandText := by
  induction links with
  | nil => simp [Expr.linksText]
  | cons l links ih => simp [Expr.linksText, ih, linkText]

/-- A chain is printed as its first operand and its links. -/
theorem Expr.text_compare (first : Expr) (links : List (Comparison × Expr)) :
    (Expr.compare first links).text.toList
      = first.operandText ++ links.flatMap fun l => linkText l.1 l.2.operandText := by
  rw [← toList_linksText]
  simp

/-! ## Trailers -/

theorem Expr.text_attribute (target : Expr) (name : String) :
    (Expr.attribute target name).text.toList = target.operandText ++ '.' :: name.toList := by
  simp

/-- An index is printed as it is, since its brackets are there. -/
theorem Expr.text_item (target index : Expr) :
    (Expr.item target index).text.toList
      = target.operandText ++ '[' :: (index.text.toList ++ [']']) := by
  simp

/-- A step is printed with its own colon. -/
theorem Expr.toList_stepText (e : Expr) :
    (Expr.optionText ":" (some e)).toList = ':' :: e.text.toList := by
  simp [optionText]

/-- Bounds that are left out are not printed, and neither is the colon of a step that is. -/
theorem Expr.text_slice (target : Expr) (lower upper step : Option Expr) :
    (Expr.slice target lower upper step).text.toList
      = target.operandText ++ '[' :: (((Expr.optionText "" lower).toList ++ ':' ::
        ((Expr.optionText "" upper).toList ++ (Expr.optionText ":" step).toList)) ++ [']']) := by
  simp

/-- The text of an argument. -/
def Argument.text : Argument Expr → String
  | .positional e => e.text
  | .star e => "*" ++ e.text
  | .keyword name e => name ++ "=" ++ e.text
  | .doubleStar e => "**" ++ e.text

theorem Argument.text_star (e : Expr) :
    (Argument.star e).text.toList = '*' :: e.text.toList := by
  simp [text]

theorem Argument.text_keyword (name : String) (e : Expr) :
    (Argument.keyword name e).text.toList = name.toList ++ '=' :: e.text.toList := by
  simp [text]

theorem Argument.text_doubleStar (e : Expr) :
    (Argument.doubleStar e).text.toList = '*' :: '*' :: e.text.toList := by
  simp [text]

/-- The printer goes through arguments one by one. -/
theorem Expr.argTexts_eq_map (args : List (Argument Expr)) :
    Expr.argTexts args = args.map Argument.text := by
  induction args with
  | nil => rfl
  | cons a args ih => cases a <;> simp [argTexts, Argument.text, ih]

theorem Expr.text_call (callee : Expr) (args : List (Argument Expr)) :
    (Expr.call callee args).text.toList
      = callee.operandText ++ '(' :: ((listed (args.map Argument.text)).toList ++ [')']) := by
  simp [argTexts_eq_map]

/-! ## Displays -/

theorem Expr.texts_eq_map (items : List Expr) : Expr.texts items = items.map Expr.text := by
  induction items with
  | nil => rfl
  | cons e items ih => simp [texts, ih]

theorem Expr.text_list (items : List Expr) :
    (Expr.list items).text.toList
      = '[' :: ((listed (items.map Expr.text)).toList ++ [']']) := by
  simp [texts_eq_map]

/-- A tuple of one item has a comma behind it. -/
theorem Expr.text_tuple_singleton (e : Expr) :
    (Expr.tuple [e]).text.toList = '(' :: ((e.text.toList ++ [',']) ++ [')']) := by
  simp [texts, tupleText]

/-- A longer tuple lists its items. -/
theorem Expr.text_tuple_cons_cons (first second : Expr) (more : List Expr) :
    (Expr.tuple (first :: second :: more)).text.toList
      = '(' :: ((listed ((first :: second :: more).map Expr.text)).toList ++ [')']) := by
  simp [texts_eq_map, tupleText]

/-- The text of an entry of a dict display. -/
def entryText (p : Expr × Expr) : String :=
  p.1.text ++ ": " ++ p.2.text

theorem toList_entryText (p : Expr × Expr) :
    (entryText p).toList = p.1.text.toList ++ ':' :: ' ' :: p.2.text.toList := by
  simp [entryText]

theorem Expr.entryTexts_eq_map (entries : List (Expr × Expr)) :
    Expr.entryTexts entries = entries.map entryText := by
  induction entries with
  | nil => rfl
  | cons p entries ih => simp [entryTexts, entryText, ih]

theorem Expr.text_dict (entries : List (Expr × Expr)) :
    (Expr.dict entries).text.toList
      = '\x7b' :: ((listed (entries.map entryText)).toList ++ ['\x7d']) := by
  simp [entryTexts_eq_map]

/-! ## Functions -/

/-- The text of a named parameter. -/
def Param.text (p : Param Expr) : String :=
  p.name ++ Expr.optionText "=" p.default

theorem Expr.paramTexts_eq_map (ps : List (Param Expr)) :
    Expr.paramTexts ps = ps.map Param.text := by
  induction ps with
  | nil => rfl
  | cons p ps ih => simp [paramTexts, Param.text, ih]

theorem Param.text_none (name : String) : (Param.text ⟨name, none⟩).toList = name.toList := by
  simp [text, Expr.optionText]

theorem Param.text_some (name : String) (e : Expr) :
    (Param.text ⟨name, some e⟩).toList = name.toList ++ '=' :: e.text.toList := by
  simp [text, Expr.optionText]

/-- The texts of the star among parameters. -/
def Params.starTexts (ps : Params Expr) : List String :=
  match ps.varargs with
  | some name => ["*" ++ name]
  | none => if ps.keywordOnly.isEmpty then [] else ["*"]

/-- The texts of parameters. -/
def Params.texts (ps : Params Expr) : List String :=
  ps.positional.map Param.text ++ ps.starTexts ++ ps.keywordOnly.map Param.text
    ++ (ps.kwargs.map ("**" ++ ·)).toList

theorem Expr.text_lambda (ps : Params Expr) (body : Expr) :
    (Expr.lambda ps body).text = lambdaText (listed ps.texts) body.text := by
  obtain ⟨positional, varargs, keywordOnly, kwargs⟩ := ps
  cases varargs <;>
    simp [Expr.paramsText, ExprLang.paramsText, paramTexts_eq_map, Params.texts,
      Params.starTexts]

end ExprLang
