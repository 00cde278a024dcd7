import ExprLang.Decimal.Binary
import ExprLang.Error.Runtime

/-!
# Floats and complex numbers

Floats are doubles, and complex numbers pairs of them. Division by zero is an error, and so is
a power that leaves the range of doubles. A complex power with a small whole exponent is a
product, so that such powers of whole numbers are exact; any other goes through the
logarithm.
-/

namespace ExprLang

/-! ## Floats -/

/-- The quotient. -/
def floatDiv (x y : Double) : Except RuntimeError Double :=
  if y == 0 then .error (.division .floatTrue) else .ok (x / y)

/-- The quotient rounded down. -/
def floatFloorDiv (x y : Double) : Except RuntimeError Double :=
  if y == 0 then .error (.division .floatFloor) else .ok (floorFloat (x / y))

/-- The remainder with the sign of the divisor. -/
def floatMod (x y : Double) : Except RuntimeError Double :=
  if y == 0 then .error (.division .floatModulo)
  else
    let r := truncRem x y
    .ok (if r != 0 && (decide (r < 0) != decide (y < 0)) then r + y else r)

/-! ## Complex numbers -/

/-- A complex number. -/
structure Complex where
  re : Double
  im : Double

/-- Equality of both parts. -/
def Complex.beq (z w : Complex) : Bool :=
  z.re == w.re && z.im == w.im

/-- The sum. -/
def Complex.add (z w : Complex) : Complex :=
  ⟨z.re + w.re, z.im + w.im⟩

/-- The difference. -/
def Complex.sub (z w : Complex) : Complex :=
  ⟨z.re - w.re, z.im - w.im⟩

/-- The product. -/
def Complex.mul (z w : Complex) : Complex :=
  ⟨z.re * w.re - z.im * w.im, z.re * w.im + z.im * w.re⟩

/-- The quotient. -/
def Complex.div (z w : Complex) : Except RuntimeError Complex :=
  let norm := w.re * w.re + w.im * w.im
  if norm == 0 then .error (.division .complexTrue)
  else .ok ⟨(z.re * w.re + z.im * w.im) / norm, (z.im * w.re - z.re * w.im) / norm⟩

/-- `acc · z ^ n`, by repeated squaring. -/
def Complex.mulPow (acc z : Complex) (n : Nat) : Complex :=
  if n = 0 then acc
  else Complex.mulPow (if n % 2 = 1 then acc.mul z else acc) (z.mul z) (n / 2)
termination_by n
decreasing_by omega

/-- The power through the logarithm of the base, which is not zero. -/
def Complex.powByLog (z w : Complex) : Complex :=
  let log : Complex := ⟨(hypotenuse z.re z.im).log, Double.atan2 z.im z.re⟩
  let exponent := w.mul log
  let scale := exponent.re.exp
  ⟨scale * exponent.im.cos, scale * exponent.im.sin⟩

/-- The whole number that an exponent is, if its magnitude is at most one hundred. -/
def smallWhole? (w : Complex) : Option Int :=
  if w.im == 0 then
    match floatParts? w.re with
    | some p => if p.isWhole && p.truncate.natAbs ≤ 100 then some p.truncate else none
    | none => none
  else none

/-- The power. -/
def Complex.pow (z w : Complex) : Except RuntimeError Complex :=
  if w.beq ⟨0, 0⟩ then .ok ⟨1, 0⟩
  else if z.beq ⟨0, 0⟩ then
    if w.im != 0 || w.re < 0 then .error (.division .complexPower) else .ok ⟨0, 0⟩
  else
    match smallWhole? w with
    | some n =>
      let power := Complex.mulPow ⟨1, 0⟩ z n.natAbs
      if n < 0 then Complex.div ⟨1, 0⟩ power else .ok power
    | none => .ok (z.powByLog w)

end ExprLang
