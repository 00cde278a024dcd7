import ExprLang.Value.Order
import ExprLang.Value.Sequence

/-!
# Operators on values

Arithmetic goes through the numeric tower, with truth values as integers; only the bitwise
operators keep two truth values what they are. Besides numbers, `+` joins sequences of one
type, `*` repeats them, and `|` merges dicts. New containers are known by the identity that
the caller hands in.
-/

namespace ExprLang

/-! ## Operators with one operand -/

/-- An operator applied to one operand. -/
def Value.unaryOp (op : UnaryOp) (v : Value) : Except RuntimeError Value :=
  let unsupported := Except.error (.type (.unsupportedOperand ("unary " ++ op.text) v.typeName))
  match v.number? with
  | .none => unsupported
  | .some n =>
    match op, n with
    | .pos, n => .ok (Value.ofNumber n)
    | .neg, n => n.neg.map Value.ofNumber
    | .invert, .int i => .ok (.int (~~~i))
    | .invert, _ => unsupported

/-! ## Operators with two operands -/

/-- The sequence among two operands of `*` repeated as often as the other says. -/
def Value.repeatEither? (id : Identity) (a b : Value) : Option (Except RuntimeError Value) :=
  match a.int?, b.int? with
  | _, .some count => a.repeat? id count
  | .some count, _ => b.repeat? id count
  | _, _ => Option.none

/-- An operator on operands that are not both numbers, where it applies. -/
def Value.sequenceOp? (id : Identity) (op : BinaryOp) (a b : Value) :
    Option (Except RuntimeError Value) :=
  match op, a, b with
  | .add, .str s, .str t => some (.ok (.str (s ++ t)))
  | .add, .list _ xs, .list _ ys => some (.ok (.list id (xs ++ ys)))
  | .add, .tuple _ xs, .tuple _ ys => some (.ok (.tuple id (xs ++ ys)))
  | .bitOr, .dict _ xs, .dict _ ys => some (.ok (.dict id (mergeEntries xs ys)))
  | .mul, a, b => a.repeatEither? id b
  | _, _, _ => Option.none

/-- An operator on two truth values, where it gives one. -/
def boolOp? (op : BinaryOp) (a b : Bool) : Option Bool :=
  match op with
  | .bitAnd => some (a && b)
  | .bitOr => some (a || b)
  | .bitXor => some (a != b)
  | _ => none

/-- An operator on two numbers, where it applies. -/
def Value.numericOp? (op : BinaryOp) (a b : Value) : Option (Except RuntimeError Value) :=
  match a, b with
  | .bool x, .bool y =>
    match boolOp? op x y with
    | .some z => some (.ok (.bool z))
    | .none => (intBinary? op (boolInt x) (boolInt y)).map (·.map Value.ofNumber)
  | a, b =>
    match a.number?, b.number? with
    | .some x, .some y => (Number.binary? op x y).map (·.map Value.ofNumber)
    | _, _ => Option.none

/-- An operator applied to two operands. A container that it makes is known by `id`. -/
def Value.binaryOp (id : Identity) (op : BinaryOp) (a b : Value) : Except RuntimeError Value :=
  match (a.numericOp? op b) <|> (a.sequenceOp? id op b) with
  | .some result => result
  | .none => .error (.type (.unsupportedOperands op.text a.typeName b.typeName))

/-! ## Comparison -/

/-- The links of a chain that need no look at items: all but membership. -/
def Comparison.holds? (link : Comparison) (a b : Value) : Option (Except RuntimeError Bool) :=
  let ordered (test : Ordering → Bool) :=
    some ((a.order link.text b).map fun o => o.any test)
  match link with
  | .equal => some (.ok (a.eq b))
  | .notEqual => some (.ok (!a.eq b))
  | .less => ordered Ordering.isLT
  | .lessEqual => ordered Ordering.isLE
  | .greater => ordered Ordering.isGT
  | .greaterEqual => ordered Ordering.isGE
  | .same => some (.ok (a.same b))
  | .notSame => some (.ok (!a.same b))
  | .isIn | .notIn => none

/-! ## Attributes -/

/-- The real part of a number. A truth value becomes an integer. -/
def Number.realPart : Number → Number
  | .complex z => .float z.re
  | n => n

/-- The imaginary part of a number. -/
def Number.imaginaryPart : Number → Number
  | .int _ => .int 0
  | .float _ => .float 0
  | .complex z => .float z.im

/-- A part of a number, by name. -/
def Value.part? (v : Value) (name : String) : Option Value :=
  v.number?.bind fun n =>
    if name = "real" then some (Value.ofNumber n.realPart)
    else if name = "imag" then some (Value.ofNumber n.imaginaryPart)
    else Option.none

/-- An attribute of a value: a part of a number, or a method, which becomes a value known by
`id`. -/
def Value.attribute (id : Identity) (v : Value) (name : String) : Except RuntimeError Value :=
  match v.part? name with
  | .some part => .ok part
  | .none =>
    match Method.ofName? v.typeName name with
    | .some found => .ok (.method id ⟨v, found⟩)
    | .none => .error (.noAttribute v.typeName name)

end ExprLang
