import ExprLang.Decimal.Binary

/-!
# Reading numbers

Digits are read from the left, so of two faults in a numeral the earlier one is reported
(`readDigits`). A float is a decimal with an optional exponent, or one of the words `inf`,
`infinity` and `nan` in any case; the value is the double nearest to the decimal.
-/

namespace ExprLang

/-! ## Integers -/

/-- Why a numeral was not read. -/
inductive NumeralFault where
  | empty
  | badDigit
  | tooLarge
  deriving DecidableEq, Repr

/-- The fault in words. -/
def NumeralFault.message : NumeralFault → String
  | .empty => "cannot parse integer from empty string"
  | .badDigit => "invalid digit found in string"
  | .tooLarge => "number too large to fit in target type"

/-- The value of a digit below `radix`: decimal digits, then letters of either case. -/
def digitValue? (radix : Nat) (c : Char) : Option Nat :=
  let value? :=
    if c.isDigit then some (c.toNat - 48)
    else if c.isLower then some (c.toNat - 87)
    else if c.isUpper then some (c.toNat - 55)
    else none
  value?.filter (· < radix)

/-- The number written by the digits `value` and then `cs`, as long as it is at most
`limit`. -/
def readDigits (radix limit : Nat) (value : Nat) : List Char → Except NumeralFault Nat
  | [] => .ok value
  | c :: cs =>
    match digitValue? radix c with
    | none => .error .badDigit
    | some d =>
      if value * radix + d ≤ limit then readDigits radix limit (value * radix + d) cs
      else .error .tooLarge

/-- The number up to `limit` that a numeral without minus sign writes. A plus sign may
stand before digits. -/
def readNat (radix limit : Nat) : List Char → Except NumeralFault Nat
  | [] => .error .empty
  | '+' :: c :: cs => readDigits radix limit 0 (c :: cs)
  | c :: cs => readDigits radix limit 0 (c :: cs)

/-! ## Floats -/

/-- The number `mantissa · 10^exponent`. -/
structure Scientific where
  mantissa : Nat
  exponent : Int
  deriving DecidableEq, Repr

/-- The number that decimal digits write. -/
def digitsToNat (cs : List Char) : Nat :=
  cs.foldl (fun n c => 10 * n + (c.toNat - 48)) 0

/-- The sign in front of a text, and the rest. -/
def readSign : List Char → Bool × List Char
  | '-' :: cs => (true, cs)
  | '+' :: cs => (false, cs)
  | cs => (false, cs)

/-- The exponent after a mantissa: nothing, or a mark, an optional sign and digits. -/
def readExponent? : List Char → Option Int
  | [] => some 0
  | c :: cs =>
    if c = 'e' ∨ c = 'E' then
      let (negative, digits) := readSign cs
      if digits.isEmpty || !digits.all Char.isDigit then none
      else some (if negative then -(digitsToNat digits : Int) else digitsToNat digits)
    else none

/-- A decimal without sign: digits with a point among them or at one end, and an exponent. -/
def readScientific? (cs : List Char) : Option Scientific :=
  let whole := cs.takeWhile Char.isDigit
  let (fraction, rest) :=
    match cs.dropWhile Char.isDigit with
    | '.' :: rest => (rest.takeWhile Char.isDigit, rest.dropWhile Char.isDigit)
    | rest => ([], rest)
  if whole.isEmpty && fraction.isEmpty then none
  else (readExponent? rest).map fun e =>
    { mantissa := digitsToNat (whole ++ fraction), exponent := e - fraction.length }

/-- The double nearest to a decimal. Far out of range the digits do not matter. -/
def Scientific.toFloat (s : Scientific) : Double :=
  let reach := s.exponent + (Nat.toDigits 10 s.mantissa).length
  if s.mantissa = 0 || reach < -400 then 0
  else if 400 < reach then Double.infinity
  else .ofFloat (Float.ofScientific s.mantissa (decide (s.exponent < 0)) s.exponent.natAbs)

/-- The single-precision number nearest to a decimal, widened to a double. -/
def Scientific.toSingle (s : Scientific) : Double :=
  let reach := s.exponent + (Nat.toDigits 10 s.mantissa).length
  if s.mantissa = 0 || reach < -400 then 0
  else if 400 < reach then Double.infinity
  else
    .ofFloat (Float32.ofScientific s.mantissa (decide (s.exponent < 0)) s.exponent.natAbs).toFloat

/-- The words for what is no finite number, in any case. -/
def readSpecial? (cs : List Char) : Option Double :=
  match String.ofList (cs.map Char.toLower) with
  | "inf" | "infinity" => some Double.infinity
  | "nan" => some Double.nan
  | _ => none

/-- A float with an optional sign, its decimal converted by `convert`. -/
def readFloatBy? (convert : Scientific → Double) (cs : List Char) : Option Double :=
  let (negative, body) := readSign cs
  ((readSpecial? body) <|> (readScientific? body).map convert).map fun x =>
    if negative then -x else x

/-- The float that a text writes. -/
def readFloat? (cs : List Char) : Option Double :=
  readFloatBy? Scientific.toFloat cs

/-- The single-precision float that a text writes, widened. -/
def readSingle? (cs : List Char) : Option Double :=
  readFloatBy? Scientific.toSingle cs

end ExprLang
