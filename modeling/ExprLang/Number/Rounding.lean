import ExprLang.Decimal.Rounding
import ExprLang.Number

/-!
# Rounding numbers

A number rounded to decimal places, half to even. Negative places are tens, hundreds and so on.
The quotient of an integer by a power of ten is taken as a double before it is rounded, so that
integers of more than 53 bits may go to a multiple next to the nearest.
-/

namespace ExprLang

/-- An integer rounded to decimal places. -/
def roundInt (i : Int64) (places : Int) : Except RuntimeError Int64 :=
  if 0 ≤ places then .ok i
  else if places < -18 then .ok 0
  else
    let unit := Int.pow 10 (-places).toNat
    let quotient := floatParts? (intToFloat i.toInt / intToFloat unit)
    checkedInt (quotient.elim 0 (·.nearestInt) * unit)

/-- A float rounded to decimal places. What is not finite stays, and so does every float at
places beyond 308. -/
def roundFloat (x : Double) (places : Int) : Except RuntimeError Double :=
  match floatParts? x with
  | none => .ok x
  | some p =>
    if 308 < places then .ok x
    else if places < -308 then .ok (p.signedDouble 0)
    else
      match p.roundedText? places with
      | none => .ok (p.signedDouble 0)
      | some text =>
        match (readFloat? text).filter (·.isFinite) with
        | some rounded => .ok (p.signedDouble rounded)
        | none => .error (.overflow .integer)

/-- A number rounded to decimal places, or to an integer if none are given. Complex numbers are
not rounded. -/
def Number.round? (places : Option Int) : Number → Option (Except RuntimeError Number)
  | .int i => some ((roundInt i (places.getD 0)).map .int)
  | .float x =>
    some (match places with
      | none => (floatToInt (·.nearestInt) x).map .int
      | some places => (roundFloat x places).map .float)
  | .complex _ => none

end ExprLang
