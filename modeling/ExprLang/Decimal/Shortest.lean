import ExprLang.Decimal.Binary

/-!
# The shortest decimal of a double

Every double stands for the interval of reals that round to it. `shortest?` gives the
decimal with the fewest digits in that interval, and among those the one nearest to the
double; of two equally near the greater one. The search is exact: on the grid of all
decimals with `n` digits it tests the two neighbours of the double, for `n` from one to
seventeen, and takes the first grid with a hit. Seventeen digits always hit.
-/

namespace ExprLang

/-! ## Decimals -/

/-- The number `d₀.d₁d₂… · 10^exponent` for the digits `d₀, d₁, …`. -/
structure Decimal where
  digits : List Char
  exponent : Int
  deriving DecidableEq, Repr

/-- The digits of `n` in base ten. -/
def decimalDigits (n : Nat) : List Char :=
  Nat.toDigits 10 n

/-- The decimal `n · 10^shift`, without zeros at the end of its digits. -/
def Decimal.ofNat (n : Nat) (shift : Int) : Decimal :=
  let digits := decimalDigits n
  { digits := (digits.reverse.dropWhile (· == '0')).reverse
    exponent := shift + digits.length - 1 }

/-! ## The interval of a double -/

/-- The reals that round to a positive double, over a common denominator: those from
`low / den` to `high / den`, the ends included if `closed`, with the double at
`mid / den`. -/
structure RoundingInterval where
  low : Nat
  mid : Nat
  high : Nat
  den : Nat
  closed : Bool

/-- The interval of `mantissa · 2^exponent`. The next double below is half as far away as
the next one above when the mantissa is the least of its exponent. -/
def roundingInterval (mantissa : Nat) (exponent : Int) : RoundingInterval :=
  let below := if mantissa = Nat.pow 2 52 then 1 else 2
  let scale := Nat.pow 2 (exponent - 2).toNat
  { low := (4 * mantissa - below) * scale
    mid := 4 * mantissa * scale
    high := (4 * mantissa + 2) * scale
    den := Nat.pow 2 (2 - exponent).toNat
    closed := mantissa % 2 == 0 }

/-- The least `k` with `num / den < 10^k`. -/
def decimalWidth (num den : Nat) : Int :=
  if den ≤ num then (decimalDigits (num / den)).length
  else 1 - ((decimalDigits ((den + num - 1) / num - 1)).length : Int)

/-- The neighbour of the double on the grid of multiples of `10^shift` that lies in the
interval, if there is one; of two the nearer, of two equally near the greater. -/
def RoundingInterval.gridPoint? (i : RoundingInterval) (shift : Int) : Option Nat :=
  let up := Nat.pow 10 (-shift).toNat
  let unit := i.den * Nat.pow 10 shift.toNat
  let below := i.mid * up / unit
  let fits (point bound : Nat) : Bool := if i.closed then point ≤ bound else point < bound
  let lowFits := fits (i.low * up) (below * unit)
  let highFits := fits ((below + 1) * unit) (i.high * up)
  if lowFits && (!highFits || 2 * (i.mid * up % unit) < unit) then some below
  else if highFits then some (below + 1)
  else none

/-- The first grid with at least `used` and at most seventeen digits that has a point in the
interval, for a double below `10^width`. -/
def RoundingInterval.search (i : RoundingInterval) (width : Int) : (left used : Nat) → Decimal
  | 0, used =>
    Decimal.ofNat
      (i.mid * Nat.pow 10 (used - width).toNat / (i.den * Nat.pow 10 (width - used).toNat))
      (width - used)
  | left + 1, used =>
    match i.gridPoint? (width - used) with
    | some point => Decimal.ofNat point (width - used)
    | none => i.search width left (used + 1)

/-- The shortest decimal of the magnitude of a double that is finite and not zero. -/
def shortest? (x : Double) : Option Decimal :=
  match floatParts? x with
  | none => none
  | some p =>
    if p.mantissa = 0 then none
    else
      let i := roundingInterval p.mantissa p.exponent
      some (i.search (decimalWidth i.mid i.den) 17 1)

end ExprLang
