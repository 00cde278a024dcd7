import ExprLang.Decimal.Notation
import ExprLang.Decimal.Reading

/-!
# Rounding to decimal places

A double is rounded to decimal places on its digits, so `2.675`, which lies below its text, goes to
`2.67`. All digits of the magnitude are written out (`FloatParts.expansion`) and cut at a place
(`Expansion.cut`), which may lie on either side of the point; the digits that are cut off decide
whether the rest is increased up, and a tie goes to an even last digit. What is left is a text again
(`FloatParts.roundedText?`). Only reading it rounds to a double.
-/

namespace ExprLang

/-! ## Expansions -/

/-- A decimal that is written out: its digits, and how many of them stand before the point. -/
structure Expansion where
  digits : List Nat
  point : Nat
  deriving DecidableEq, Repr

/-- A number of decimal places that is enough for every double. -/
def exactPlaces : Nat := 1100

/-- The magnitude in units of the last of the exact places. The division is exact, since no double
has more than 1074 binary places. -/
def FloatParts.exactUnits (p : FloatParts) : Nat :=
  p.mantissa * Nat.pow 2 p.exponent.toNat * Nat.pow 10 exactPlaces / Nat.pow 2 (-p.exponent).toNat

/-- The decimal expansion of a magnitude, with all of its digits. -/
def FloatParts.expansion (p : FloatParts) : Expansion :=
  let unit := Nat.pow 10 exactPlaces
  let whole := decimalDigits (p.exactUnits / unit)
  let fraction := padded exactPlaces (decimalDigits (p.exactUnits % unit))
  ⟨(whole ++ fraction).map fun c => c.toNat - 48, whole.length⟩

/-! ## Rounding -/

/-- Whether digits are increased up when the digits `dropped` behind them are cut off. -/
def countsUp (kept dropped : List Nat) : Bool :=
  match dropped with
  | [] => false
  | d :: beyond =>
    decide (5 < d) || d == 5 && (beyond.any (· != 0) || kept.getLast?.any (· % 2 == 1))

/-- The digits of the next number, and whether one is carried out of them. -/
def increased : List Nat → List Nat × Bool
  | [] => ([], true)
  | d :: ds =>
    match increased ds with
    | (ds, false) => (d :: ds, false)
    | (ds, true) => if d = 9 then (0 :: ds, true) else ((d + 1) :: ds, false)

/-- The first `keep` digits of an expansion, rounded half to even by the others. A digit that is
carried out of them stands before the point. -/
def Expansion.rounded (e : Expansion) (keep : Nat) : Expansion :=
  let kept := e.digits.take keep
  if countsUp kept (e.digits.drop keep) then
    match increased kept with
    | (digits, true) => ⟨1 :: digits, e.point + 1⟩
    | (digits, false) => ⟨digits, e.point⟩
  else ⟨kept, e.point⟩

/-- The expansion with zeros up to the point. -/
def Expansion.filled (e : Expansion) : Expansion :=
  { e with digits := e.digits ++ List.replicate (e.point - e.digits.length) 0 }

/-- The expansion cut off after `keep` digits and rounded half to even. Digits before the point that
are cut off become zeros. -/
def Expansion.cut (e : Expansion) (keep : Nat) : Expansion :=
  (e.rounded keep).filled

/-- The text of an expansion. -/
def Expansion.text (e : Expansion) : List Char :=
  let digits := e.digits.map Nat.digitChar
  digits.take e.point ++ '.' :: digits.drop e.point

/-- The text of a magnitude rounded to decimal places, if a digit position is left. -/
def FloatParts.roundedText? (p : FloatParts) (places : Int) : Option (List Char) :=
  let keep := p.expansion.point + places
  if keep < 0 then none else some (p.expansion.cut keep.toNat).text

/-- The sign of the parts put on a double. -/
def FloatParts.signedDouble (p : FloatParts) (x : Double) : Double :=
  if p.negative then -x else x

example : ((floatParts? (.ofFloat 999.5)).bind (·.roundedText? 0)).map String.ofList =
    some "1000." := by
  decide +kernel

end ExprLang
