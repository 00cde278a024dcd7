import ExprLang.Expr
import ExprLang.Number.Floating
import ExprLang.Number.Integer

/-!
# The numeric tower

Integers widen to floats and floats to complex numbers. A binary operator works on both
operands widened to the wider of the two (`Number.binary?`), and does not apply where that
type has no such operator. Equality compares widened operands too; an order exists only below
the complex numbers.
-/

namespace ExprLang

/-- A number. -/
inductive Number where
  | int (n : Int64)
  | float (x : Double)
  | complex (z : Complex)

/-- The number as a float. The imaginary part of a complex number is dropped. -/
def Number.toFloat : Number → Double
  | .int n => intToFloat n.toInt
  | .float x => x
  | .complex z => z.re

/-- The number as a complex number. -/
def Number.toComplex : Number → Complex
  | .complex z => z
  | n => ⟨n.toFloat, 0⟩

/-! ## Comparison -/

/-- Whether two numbers are equal. -/
def Number.beq : Number → Number → Bool
  | .int x, .int y => x == y
  | .complex z, b => z.beq b.toComplex
  | a, .complex w => a.toComplex.beq w
  | a, b => a.toFloat == b.toFloat

/-- The order of two floats. A NaN has none. -/
def floatOrdering? (x y : Double) : Option Ordering :=
  if x < y then some .lt
  else if y < x then some .gt
  else if x == y then some .eq
  else none

/-- The order of two numbers, `none` inside where there is a NaN and `none` outside where one
is complex. -/
def Number.ordering? : Number → Number → Option (Option Ordering)
  | .complex _, _ => none
  | _, .complex _ => none
  | .int x, .int y => some (some (if x < y then .lt else if y < x then .gt else .eq))
  | a, b => some (floatOrdering? a.toFloat b.toFloat)

/-! ## Powers -/

/-- The power of floats. That of a negative base with a broken exponent is complex. -/
def floatPow (x y : Double) : Except RuntimeError Number :=
  if x == 0 && y < 0 then .error (.division .negativePower)
  else if x < 0 && y.isFinite && !isWholeFloat y then
    (Complex.pow ⟨x, 0⟩ ⟨y, 0⟩).map .complex
  else
    let power := x.pow y
    if power.isInf && x.isFinite && y.isFinite then .error (.overflow .float)
    else .ok (.float power)

/-- The power of integers. With a negative exponent it is a float. -/
def intPower (x y : Int64) : Except RuntimeError Number :=
  if y < 0 then
    if x = 0 then .error (.division .negativePower)
    else .ok (.float ((intToFloat x.toInt).pow (intToFloat y.toInt)))
  else (intPow x y.toInt.toNat).map .int

/-! ## Operators -/

/-- An operator on integers. -/
def intBinary? (op : BinaryOp) (x y : Int64) : Option (Except RuntimeError Number) :=
  match op with
  | .add => some ((checkedInt (x.toInt + y.toInt)).map .int)
  | .sub => some ((checkedInt (x.toInt - y.toInt)).map .int)
  | .mul => some ((checkedInt (x.toInt * y.toInt)).map .int)
  | .div =>
    some (if y = 0 then .error (.division .intTrue)
      else .ok (.float (intToFloat x.toInt / intToFloat y.toInt)))
  | .floorDiv => some ((intFloorDiv x y).map .int)
  | .mod => some ((intMod x y).map .int)
  | .pow => some (intPower x y)
  | .shiftLeft => some ((intShiftLeft x y).map .int)
  | .shiftRight => some ((intShiftRight x y).map .int)
  | .bitAnd => some (.ok (.int (x &&& y)))
  | .bitOr => some (.ok (.int (x ||| y)))
  | .bitXor => some (.ok (.int (x ^^^ y)))
  | .matmul => none

/-- An operator on floats. -/
def floatBinary? (op : BinaryOp) (x y : Double) : Option (Except RuntimeError Number) :=
  match op with
  | .add => some (.ok (.float (x + y)))
  | .sub => some (.ok (.float (x - y)))
  | .mul => some (.ok (.float (x * y)))
  | .div => some ((floatDiv x y).map .float)
  | .floorDiv => some ((floatFloorDiv x y).map .float)
  | .mod => some ((floatMod x y).map .float)
  | .pow => some (floatPow x y)
  | _ => none

/-- An operator on complex numbers. -/
def complexBinary? (op : BinaryOp) (z w : Complex) : Option (Except RuntimeError Number) :=
  match op with
  | .add => some (.ok (.complex (z.add w)))
  | .sub => some (.ok (.complex (z.sub w)))
  | .mul => some (.ok (.complex (z.mul w)))
  | .div => some ((z.div w).map .complex)
  | .pow => some ((z.pow w).map .complex)
  | _ => none

/-- An operator on two numbers, widened to the wider type. It is absent where that type has no
such operator. -/
def Number.binary? (op : BinaryOp) : Number → Number → Option (Except RuntimeError Number)
  | .int x, .int y => intBinary? op x y
  | .complex z, b => complexBinary? op z b.toComplex
  | a, .complex w => complexBinary? op a.toComplex w
  | a, b => floatBinary? op a.toFloat b.toFloat

/-- The negated number. -/
def Number.neg : Number → Except RuntimeError Number
  | .int n => (checkedInt (-n.toInt)).map .int
  | .float x => .ok (.float (-x))
  | .complex z => .ok (.complex ⟨-z.re, -z.im⟩)

/-- The magnitude. -/
def Number.abs : Number → Except RuntimeError Number
  | .int n => (checkedInt n.toInt.natAbs).map .int
  | .float x => .ok (.float x.abs)
  | .complex z => .ok (.float (hypotenuse z.re z.im))

/-- The integer that a float is after `whole` has dropped its fraction. -/
def floatToInt (whole : FloatParts → Int) (x : Double) : Except RuntimeError Int64 :=
  match floatParts? x with
  | some p => checkedInt (whole p)
  | none => if x.isNaN then .error (.value .nanToInt) else .error (.overflow .infinityToInt)

end ExprLang
