import ExprLang.Decimal.Shortest

/-!
# Numbers as text

`FloatNotation` holds the decisions of a float format, and `floatNotation` those of this
language: a number from 0.0001 up to below 10^16 is written out with a decimal point, any
other with an exponent of at least two digits and a sign. The parts of a complex number
are written as integers where they are whole.
-/

namespace ExprLang

/-! ## The format -/

/-- The decisions of a float format. -/
structure FloatNotation where
  /-- The least decimal exponent that is written positionally. -/
  leastPositional : Int
  /-- The least decimal exponent above those written positionally. -/
  boundPositional : Int
  /-- What is put after a number without fraction digits. -/
  wholeMark : List Char
  /-- The mark between mantissa and exponent. -/
  exponentMark : Char
  /-- The least number of digits of an exponent. -/
  exponentDigits : Nat

/-- Floats are written out from 0.0001 up to below 10^16, always with a decimal point; all
others have an exponent with sign and at least two digits. -/
def floatNotation : FloatNotation where
  leastPositional := -4
  boundPositional := 16
  wholeMark := ['.', '0']
  exponentMark := 'e'
  exponentDigits := 2

/-- The digits `cs`, with zeros put in front until there are `width`. -/
def padded (width : Nat) (cs : List Char) : List Char :=
  List.replicate (width - cs.length) '0' ++ cs

/-- The integer and fraction digits of a decimal that is written out. -/
def Decimal.positional (d : Decimal) : List Char × List Char :=
  if 0 ≤ d.exponent then
    let whole := d.exponent.toNat + 1
    (d.digits.take whole ++ List.replicate (whole - d.digits.length) '0', d.digits.drop whole)
  else (['0'], List.replicate (-d.exponent - 1).toNat '0' ++ d.digits)

/-- A decimal in the given notation. -/
def Decimal.write (f : FloatNotation) (d : Decimal) : List Char :=
  if f.leastPositional ≤ d.exponent ∧ d.exponent < f.boundPositional then
    let (whole, fraction) := d.positional
    whole ++ if fraction.isEmpty then f.wholeMark else '.' :: fraction
  else
    let fraction := d.digits.drop 1
    d.digits.take 1 ++ (if fraction.isEmpty then [] else '.' :: fraction)
      ++ f.exponentMark :: (if d.exponent < 0 then '-' else '+')
      :: padded f.exponentDigits (decimalDigits d.exponent.natAbs)

/-! ## Text of numbers -/

/-- The text of a float. -/
def floatText (x : Double) : String :=
  if x.isNaN then "nan"
  else
    let sign := if x.isNegative then ['-'] else []
    match shortest? x with
    | some d => String.ofList (sign ++ d.write floatNotation)
    | none => String.ofList (sign ++ (if x.isInf then "inf" else "0.0").toList)

/-- The text of an integer. -/
def intText (n : Int) : String :=
  if n < 0 then "-" ++ Nat.repr n.natAbs else Nat.repr n.natAbs

/-- The text of one part of a complex number: an integer without a fraction if it is whole
and below 10^16, so that a negative zero loses its sign. -/
def partText (x : Double) : String :=
  match floatParts? x with
  | some p =>
    if p.isWhole && p.truncate.natAbs < Nat.pow 10 16 then intText p.truncate else floatText x
  | none => floatText x

/-- The text of a complex number. A real part of positive zero is left out, and with it the
brackets. -/
def complexText (re im : Double) : String :=
  if re == 0 && !re.isNegative then partText im ++ "j"
  else
    let sign := if im < 0 || (im == 0 && im.isNegative) then "-" else "+"
    "(" ++ partText re ++ sign ++ partText im.abs ++ "j)"

/-- The text of an integer in another base: sign, mark of the base, digits. -/
def radixText (radix : Nat) (mark : String) (n : Int) : String :=
  (if n < 0 then "-" else "") ++ mark ++ String.ofList (Nat.toDigits radix n.natAbs)

example : [1, 0.1, 100, 123456.789, 1e15, 1e16, 0.0001, 0.00001, 1.5e-7, 5e-324, 0.1 + 0.2].map
    (fun x : Float => floatText (.ofFloat x)) = ["1.0", "0.1", "100.0", "123456.789",
      "1000000000000000.0", "1e+16", "0.0001", "1e-05", "1.5e-07", "5e-324",
      "0.30000000000000004"] := by
  decide +kernel

end ExprLang
