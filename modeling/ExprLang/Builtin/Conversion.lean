import ExprLang.Number.Reading
import ExprLang.Number.Rounding
import ExprLang.Value.Operator

/-!
# Builtin functions of numbers

Conversions between numbers and texts, and the numeric functions that are no operators. None of
them reads or changes the store.
-/

namespace ExprLang

/-- The integer that a value is, where nothing else will do. -/
def Value.asInteger (v : Value) : Except RuntimeError Int64 :=
  match v.int? with
  | .some i => .ok i
  | .none => .error (.type (.notInteger v.typeName))

/-! ## Conversions -/

/-- The integer that a value stands for, in a base if it is a text. -/
def Value.toInteger (v : Value) (base : Option Value) : Except RuntimeError Value := do
  match base with
  | .some base =>
    let base ← base.asInteger
    match v with
    | .str s => return .int (← readIntText s base.toInt)
    | _ => throw (.type .intBaseWithoutText)
  | .none =>
    match v with
    | .bool b => return .int (boolInt b)
    | .int i => return .int i
    | .float x => return .int (← floatToInt (·.truncate) x)
    | .str s => return .int (← readIntText s 10)
    | _ => throw (.type (.intArgument v.typeName))

/-- The float that a value stands for. -/
def Value.toReal (v : Value) : Except RuntimeError Value :=
  match v with
  | .str s =>
    match readFloatText? s.toList with
    | .some x => .ok (.float x)
    | .none => .error (.value (.malformedFloat s))
  | v =>
    match v.real? with
    | .some x => .ok (.float x)
    | .none => .error (.type (.floatArgument v.typeName))

/-- The complex number that a part of a complex number stands for. The part is named by its
place among the arguments. -/
def Value.toPart (v : Value) (place : String) : Except RuntimeError Complex :=
  match v with
  | .str s =>
    match readComplexText? s.toList with
    | .some z => .ok z
    | .none => .error (.value .malformedComplex)
  | v =>
    match v.number? with
    | .some n => .ok n.toComplex
    | .none => .error (.type (.complexArgument place v.typeName))

/-- The complex number with the given parts, which may be complex themselves. A part left out is
zero. -/
def complexOfParts (real imag : Option Value) : Except RuntimeError Value := do
  let re ← match real with
    | none => pure ⟨0, 0⟩
    | some v => v.toPart "first"
  let im ← match imag with
    | none => pure ⟨0, 0⟩
    | some v => if v.isStr then throw (.type .complexSecondString) else v.toPart "second"
  if real.any Value.isStr && imag.isSome then throw (.type .complexAfterString)
  return .complex ⟨re.re - im.im, re.im + im.re⟩

/-! ## Numeric functions -/

/-- The magnitude of a number. -/
def Value.magnitude (v : Value) : Except RuntimeError Value :=
  match v.number? with
  | .some n => n.abs.map Value.ofNumber
  | .none => .error (.type (.unsupportedOperand "abs()" v.typeName))

/-- A number rounded to decimal places, or to an integer if the places are left out. -/
def Value.rounded (v : Value) (places : Value) : Except RuntimeError Value := do
  let places ← if places.isNone then pure Option.none else some <$> places.asInteger
  match v.number?.bind (Number.round? (places.map (·.toInt))) with
  | .some result => result.map Value.ofNumber
  | .none => throw (.type (.notRoundable v.typeName))

/-- A power of residues. All three numbers have to be integers. -/
def Value.powMod (base exponent modulus : Value) : Except RuntimeError Value :=
  match base.int?, exponent.int?, modulus.int? with
  | .some b, .some e, .some m => (intPowMod b e m).map Value.int
  | _, _, _ => .error (.type .powModulus)

/-- An integer written in another base, with the mark of that base. -/
def Value.inRadix (v : Value) (radix : Nat) (mark : String) : Except RuntimeError Value := do
  return .str (radixText radix mark (← v.asInteger).toInt)

end ExprLang
