import ExprLang.Decimal.Double
import ExprLang.Decimal.HalfEven

/-!
# Doubles as binary fractions

A finite double is `± m · 2^e` for a mantissa `m < 2^53` and an exponent `e ≥ -1074`.
`floatParts?` reads these parts off its bits, and `nearestFloat` goes back: it is the double
nearest to a given `± m · 2^e` of any size, half to even. Whole parts, remainders and
lengths of doubles are computed on the parts with integers, so each is exact or rounded
once.
-/

namespace ExprLang

/-! ## Parts -/

/-- The number `± mantissa · 2^exponent`. -/
structure FloatParts where
  negative : Bool
  mantissa : Nat
  exponent : Int
  deriving DecidableEq, Repr

/-- The parts of a finite double. -/
def floatParts? (x : Double) : Option FloatParts :=
  let bits : Nat := x.bits.toNat
  let field : Nat := bits / Nat.pow 2 52 % Nat.pow 2 11
  let fraction : Nat := bits % Nat.pow 2 52
  if field = 2047 then none
  else if field = 0 then some ⟨x.isNegative, fraction, -1074⟩
  else some ⟨x.isNegative, Nat.pow 2 52 + fraction, (field : Int) - 1075⟩

/-- The double nearest to `± mantissa · 2^exponent`, half to even. The unit in its last
place is `2^unit`; a unit and a mantissa in the bits add up to the next power of two when
rounding carries, so no case is needed for it. -/
def nearestFloat (p : FloatParts) : Double :=
  let sign := if p.negative then Nat.pow 2 63 else 0
  if p.mantissa = 0 then ⟨UInt64.ofNat sign⟩
  else
    let unit := max (p.exponent + p.mantissa.log2 - 52) (-1074)
    let shift := p.exponent - unit
    let rounded :=
      if 0 ≤ shift then p.mantissa * Nat.pow 2 shift.toNat
      else divHalfEven p.mantissa (Nat.pow 2 (-shift).toNat)
    let magnitude := min ((unit + 1074).toNat * Nat.pow 2 52 + rounded) (2047 * Nat.pow 2 52)
    ⟨UInt64.ofNat (sign + magnitude)⟩

/-! ## Whole parts -/

/-- The sign of the parts put on an integer. -/
def FloatParts.signed (p : FloatParts) (n : Nat) : Int :=
  if p.negative then -(n : Int) else n

/-- The number rounded toward zero. -/
def FloatParts.truncate (p : FloatParts) : Int :=
  p.signed <|
    if 0 ≤ p.exponent then p.mantissa * Nat.pow 2 p.exponent.toNat
    else p.mantissa / Nat.pow 2 (-p.exponent).toNat

/-- Whether the number is an integer. -/
def FloatParts.isWhole (p : FloatParts) : Bool :=
  decide (0 ≤ p.exponent) || p.mantissa % Nat.pow 2 (-p.exponent).toNat == 0

/-- The number rounded down. -/
def FloatParts.floor (p : FloatParts) : Int :=
  if p.negative && !p.isWhole then p.truncate - 1 else p.truncate

/-- The nearest integer, half to even. -/
def FloatParts.nearestInt (p : FloatParts) : Int :=
  p.signed <|
    if 0 ≤ p.exponent then p.mantissa * Nat.pow 2 p.exponent.toNat
    else divHalfEven p.mantissa (Nat.pow 2 (-p.exponent).toNat)

/-- Whether a double is finite and an integer. -/
def isWholeFloat (x : Double) : Bool :=
  (floatParts? x).any (·.isWhole)

/-- The double of an integer that rounding a double gave: the integer itself, with the sign
of the double when it is zero. -/
def wholeFloat (negative : Bool) (n : Int) : Double :=
  nearestFloat ⟨if n = 0 then negative else decide (n < 0), n.natAbs, 0⟩

/-- A double rounded down to a whole double. What is not finite stays. -/
def floorFloat (x : Double) : Double :=
  match floatParts? x with
  | none => x
  | some p => wholeFloat p.negative p.floor

/-! ## Remainder and length -/

/-- The remainder of `x / y` with the quotient rounded toward zero. It is exact and has the
sign of `x`. There is none of an infinity, and none by zero. -/
def truncRem (x y : Double) : Double :=
  match floatParts? x, floatParts? y with
  | some p, some q =>
    if q.mantissa = 0 then Double.nan.neg
    else
      let e := min p.exponent q.exponent
      let a := p.mantissa * Nat.pow 2 (p.exponent - e).toNat
      let b := q.mantissa * Nat.pow 2 (q.exponent - e).toNat
      nearestFloat ⟨p.negative, a % b, e⟩
  | some _, none => if y.isNaN then y else x
  | none, _ => if x.isNaN then x else if y.isNaN then y else Double.nan.neg

/-- The length of the hypotenuse over the legs `x` and `y`, rounded once. The root is taken
with at least 56 bits, and a last bit tells whether it was exact. Over an infinite leg it is
infinite, whatever the other leg is. -/
def hypotenuse (x y : Double) : Double :=
  match floatParts? x, floatParts? y with
  | some p, some q =>
    let e := min p.exponent q.exponent
    let a := p.mantissa * Nat.pow 2 (p.exponent - e).toNat
    let b := q.mantissa * Nat.pow 2 (q.exponent - e).toNat
    let square := (a * a + b * b) * Nat.pow 4 56
    let root := square.sqrt
    nearestFloat ⟨false, 2 * root + (if root * root = square then 0 else 1), e - 57⟩
  | _, _ => if x.isInf || y.isInf then Double.infinity else if x.isNaN then x else y

/-- The double nearest to an integer. -/
def intToFloat (n : Int) : Double :=
  nearestFloat ⟨decide (n < 0), n.natAbs, 0⟩

/-- Writing the parts of a double back gives the double, here on the extremes of the format. -/
example : [0x0000000000000001, 0x000FFFFFFFFFFFFF, 0x0010000000000000, 0x3FF0000000000000,
    0x7FEFFFFFFFFFFFFF, 0x8000000000000000, 0xC00921FB54442D18].map
      (fun b : UInt64 => ((floatParts? ⟨b⟩).map fun p => (nearestFloat p).bits)) =
    [0x0000000000000001, 0x000FFFFFFFFFFFFF, 0x0010000000000000, 0x3FF0000000000000,
     0x7FEFFFFFFFFFFFFF, 0x8000000000000000, 0xC00921FB54442D18].map some := by
  decide +kernel

end ExprLang
