/-!
# Doubles

A double is a word of 64 bits: a sign, an exponent and a fraction. Numbers, the infinities and what
is no number (NaN) all have a sign, and changing it touches nothing else. Two doubles are the same
if their words are, which tells the two zeros apart and every NaN from its negative; the equality
`==` and the order are those of numbers, under which a NaN equals nothing and the zeros are equal.

Arithmetic rounds to the nearest double. An operation that is given a NaN gives it back, the
left one of two; one that has no result in numbers gives the NaN with its sign set (`ofResult`).
-/

namespace ExprLang

/-- A number of double precision, by its bits. -/
structure Double where
  bits : UInt64

namespace Double

/-! ## Signs and classes -/

/-- The word of a sign alone. -/
def signBit : UInt64 := 0x8000000000000000

/-- Whether the sign is set. -/
def isNegative (x : Double) : Bool :=
  decide (Nat.pow 2 63 ≤ x.bits.toNat)

/-- The double with the other sign. -/
def neg (x : Double) : Double :=
  ⟨x.bits ^^^ signBit⟩

/-- The double with its sign cleared. -/
def abs (x : Double) : Double :=
  ⟨x.bits &&& ~~~signBit⟩

/-- The positive infinity. -/
def infinity : Double := ⟨0x7FF0000000000000⟩

/-- The NaN whose sign is clear. -/
def nan : Double := ⟨0x7FF8000000000000⟩

/-- Whether a double is no number. -/
def isNaN (x : Double) : Bool :=
  decide (infinity.bits < x.abs.bits)

/-- Whether a double is an infinity. -/
def isInf (x : Double) : Bool :=
  x.abs.bits == infinity.bits

/-- Whether a double is a number and no infinity. -/
def isFinite (x : Double) : Bool :=
  decide (x.abs.bits < infinity.bits)

/-- Whether two doubles are the same, the sign of a zero or a NaN included. -/
def same (x y : Double) : Bool :=
  x.bits == y.bits

/-! ## Arithmetic -/

/-- The double as a word of the processor. -/
def toFloat (x : Double) : Float :=
  Float.ofBits x.bits

/-- A word of the processor as a double, NaNs with a clear sign. -/
def ofFloat (x : Float) : Double :=
  if x.isNaN then nan else ⟨x.toBits⟩

/-- What an operation on numbers gives. Where it has no result in numbers, that is the NaN with
its sign set. -/
def ofResult (x : Float) : Double :=
  if x.isNaN then nan.neg else ⟨x.toBits⟩

/-- A function of one number. A NaN stays as it is. -/
def map (f : Float → Float) (x : Double) : Double :=
  if x.isNaN then x else ofResult (f x.toFloat)

/-- A function of two numbers. A NaN stays as it is, the left one of two. -/
def zip (f : Float → Float → Float) (x y : Double) : Double :=
  if x.isNaN then x else if y.isNaN then y else ofResult (f x.toFloat y.toFloat)

instance : OfNat Double 0 := ⟨⟨0⟩⟩
instance : OfNat Double 1 := ⟨⟨0x3FF0000000000000⟩⟩
instance : Neg Double := ⟨neg⟩
instance : Add Double := ⟨zip (· + ·)⟩
instance : Sub Double := ⟨zip (· - ·)⟩
instance : Mul Double := ⟨zip (· * ·)⟩
instance : Div Double := ⟨zip (· / ·)⟩

instance : BEq Double := ⟨fun x y => x.toFloat == y.toFloat⟩
instance : LT Double := ⟨fun x y => x.toFloat < y.toFloat⟩
instance (x y : Double) : Decidable (x < y) := inferInstanceAs (Decidable (x.toFloat < y.toFloat))

/-- Whether a double is an odd number: the powers of minus one tell. -/
def isOdd (x : Double) : Bool :=
  Float.pow (-1) x.toFloat == -1

/-- The power. The zeroth power of anything and any power of one are one, NaNs included, and an
odd power of a NaN has a clear sign. -/
def pow (x y : Double) : Double :=
  if y == 0 || x == 1 then 1
  else if x.isNaN && y.isOdd then x.abs
  else x.zip Float.pow y

/-- The natural exponential. -/
def exp : Double → Double := map Float.exp

/-- The natural logarithm. -/
def log : Double → Double := map Float.log

/-- The cosine. -/
def cos : Double → Double := map Float.cos

/-- The sine. -/
def sin : Double → Double := map Float.sin

/-- The angle of the point `(x, y)`. -/
def atan2 (y x : Double) : Double :=
  x.zip (fun x y => Float.atan2 y x) y

end Double

end ExprLang
