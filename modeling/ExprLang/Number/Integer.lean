import ExprLang.Error.Runtime

/-!
# Integers

Integers are signed words of 64 bits. A step that can leave that range is worked out on `Int` and
has to fit. Most steps are checked: if the result does not fit, the error is
`integer result out of range` (`checkedInt`, with `checkedInt_eq_ok` and `checkedInt_eq_error`).
Some are not, because they are thought to fit always; if such a step does not, there is no error to
give, and the program panics (`uncheckedInt`, and `uncheckedWide` for words of 128 bits). An
operation may take several steps, of which each has to fit.
-/

namespace ExprLang

/-! ## The range -/

/-- Whether an integer fits in a word. -/
def InRange (n : Int) : Prop := -9223372036854775808 ≤ n ∧ n < 9223372036854775808

instance (n : Int) : Decidable (InRange n) := by
  unfold InRange; infer_instance

/-- An integer as a word, if it fits. -/
def checkedInt (n : Int) : Except RuntimeError Int64 :=
  if InRange n then .ok (Int64.ofInt n) else .error (.overflow .integer)

/-- An integer as a word, where nothing looks whether it fits. -/
def uncheckedInt (step : Panic) (n : Int) : Except RuntimeError Int64 :=
  if InRange n then .ok (Int64.ofInt n) else .error (.panic step)

theorem toInt_ofInt_of_inRange {n : Int} (h : InRange n) : (Int64.ofInt n).toInt = n :=
  Int64.toInt_ofInt_of_le h.1 h.2

theorem inRange_toInt (n : Int64) : InRange n.toInt :=
  ⟨Int64.le_toInt n, Int64.toInt_lt n⟩

theorem checkedInt_eq_ok {n : Int} {m : Int64} :
    checkedInt n = .ok m ↔ InRange n ∧ m.toInt = n := by
  unfold checkedInt
  split
  · next h =>
    constructor
    · rintro ⟨⟩; exact ⟨h, toInt_ofInt_of_inRange h⟩
    · rintro ⟨-, rfl⟩; simp
  · next h => simp [h]

theorem checkedInt_eq_error {n : Int} {e : RuntimeError} :
    checkedInt n = .error e ↔ ¬InRange n ∧ e = .overflow .integer := by
  unfold checkedInt
  split <;> simp_all [eq_comm]

/-! ## Arithmetic -/

/-- The remainder of the quotient rounded towards zero. It has the sign of the dividend. It is
found by dividing, so the quotient has to fit too. -/
def uncheckedRemainder (x y : Int64) : Except RuntimeError Int64 := do
  let _ ← uncheckedInt .remainder (x.toInt.tdiv y.toInt)
  return x % y

/-- The quotient rounded down, for a divisor that is not zero. -/
def floorDiv (x y : Int64) : Except RuntimeError Int64 := do
  let q ← checkedInt (x.toInt.tdiv y.toInt)
  let r ← uncheckedRemainder x y
  if r ≠ 0 ∧ (x < 0 ↔ ¬y < 0) then uncheckedInt .subtraction (q.toInt - 1) else return q

/-- The remainder of the quotient rounded down, for a divisor that is not zero. It has the sign
of the divisor. The quotient by -1 may not fit, but its remainder is always zero. -/
def floorMod (x y : Int64) : Except RuntimeError Int64 :=
  if y = -1 then return 0
  else do
    let r ← uncheckedRemainder x y
    if r ≠ 0 ∧ (r < 0 ↔ ¬y < 0) then uncheckedInt .addition (r.toInt + y.toInt) else return r

/-- The quotient rounded down. -/
def intFloorDiv (x y : Int64) : Except RuntimeError Int64 :=
  if y = 0 then .error (.division .intFloor) else floorDiv x y

/-- The remainder of the quotient rounded down. -/
def intMod (x y : Int64) : Except RuntimeError Int64 :=
  if y = 0 then .error (.division .intFloor) else floorMod x y

/-- What squaring has collected, with the base where the exponent is odd. -/
def timesOdd (acc base : Int64) (e : Nat) : Except RuntimeError Int64 :=
  if e % 2 = 1 then checkedInt (acc.toInt * base.toInt) else .ok acc

/-- `acc * base ^ e` by repeated squaring. The base is squared no more often than needed. -/
def powTimes (acc base : Int64) (e : Nat) : Except RuntimeError Int64 := do
  let acc ← timesOdd acc base e
  if _h : e ≤ 1 then return acc
  else powTimes acc (← checkedInt (base.toInt * base.toInt)) (e / 2)
termination_by e

/-- The greatest exponent for which a power is worked out at all. -/
def maxExponent : Nat := 4294967295

/-- A power with an exponent that is not negative. The powers of 0, 1 and -1 need no work. -/
def intPow (x : Int64) (e : Nat) : Except RuntimeError Int64 :=
  if x = 0 then .ok (if e = 0 then 1 else 0)
  else if x = 1 then .ok 1
  else if x = -1 then .ok (if e % 2 = 0 then 1 else -1)
  else if maxExponent < e then .error (.overflow .integer)
  else powTimes 1 x e

/-- A left shift, which is refused if shifting back does not restore the operand. From 63 places
on, nothing but zero is shifted. -/
def intShiftLeft (x y : Int64) : Except RuntimeError Int64 :=
  if y < 0 then .error (.value .negativeShift)
  else if x = 0 then .ok 0
  else if 63 ≤ y then .error (.overflow .integer)
  else if (x <<< y) >>> y = x then .ok (x <<< y)
  else .error (.overflow .integer)

/-- A right shift, which rounds down. From 64 places on, only the sign is left. -/
def intShiftRight (x y : Int64) : Except RuntimeError Int64 :=
  if y < 0 then .error (.value .negativeShift)
  else if 64 ≤ y then .ok (if x < 0 then -1 else 0)
  else .ok (x >>> y)

/-- The number of binary digits of the magnitude. -/
def bitLength (x : Int64) : Nat :=
  if x = 0 then 0 else x.toInt.natAbs.log2 + 1

/-! ## Powers of residues

The product of two words need not fit in a word. It fits in one of 128 bits, in which these
powers are worked out. -/

/-- Whether an integer fits in a word of 128 bits. -/
def InWideRange (n : Int) : Prop :=
  -170141183460469231731687303715884105728 ≤ n ∧ n < 170141183460469231731687303715884105728

instance (n : Int) : Decidable (InWideRange n) := by
  unfold InWideRange; infer_instance

/-- An integer in a word of 128 bits, where nothing looks whether it fits. -/
@[irreducible]
def uncheckedWide (step : Panic) (n : Int) : Except RuntimeError Int :=
  if InWideRange n then .ok n else .error (.panic step)

/-- What squaring has collected modulo `m`, with the base where the exponent is odd. -/
def timesOddMod (m acc base : Int) (e : Nat) : Except RuntimeError Int :=
  if e % 2 = 1 then (uncheckedWide .multiplication (acc * base)).map (·.emod m) else .ok acc

/-- `acc * base ^ e` modulo `m` by repeated squaring. -/
def powMod (m acc base : Int) (e : Nat) : Except RuntimeError Int :=
  if _h : e = 0 then return acc
  else do
    let acc ← timesOddMod m acc base e
    powMod m acc ((← uncheckedWide .multiplication (base * base)).emod m) (e / 2)
termination_by e

theorem natAbs_tmod_lt (a : Int) {b : Int} (hb : b ≠ 0) : (a.tmod b).natAbs < b.natAbs := by
  rw [Int.natAbs_tmod]
  exact Nat.mod_lt _ (Int.natAbs_pos.2 hb)

theorem sub_tdiv_mul (a b : Int) : a - a.tdiv b * b = a.tmod b := by
  rw [Int.tmod_def, Int.mul_comm]

/-- Steps one after the other, with the result of each in a word of 128 bits. -/
def takeWideSteps : List (Panic × Int) → Except RuntimeError Unit
  | [] => return ()
  | (step, n) :: steps => do
    discard (uncheckedWide step n)
    takeWideSteps steps

/-- The greatest common divisor of `r₀` and `r₁`, with its coefficient of the first of two
numbers of which `r₀` and `r₁` have the coefficients `s₀` and `s₁`. -/
def gcdWithCoefficient (r₀ r₁ s₀ s₁ : Int) : Except RuntimeError (Int × Int) :=
  if _h : r₁ = 0 then return (r₀, s₀)
  else do
    let q := r₀.tdiv r₁
    let r₂ := r₀ - q * r₁
    let s₂ := s₀ - q * s₁
    takeWideSteps [(.division, q), (.multiplication, q * r₁), (.subtraction, r₂),
      (.multiplication, q * s₁), (.subtraction, s₂)]
    gcdWithCoefficient r₁ r₂ s₁ s₂
termination_by r₁.natAbs
decreasing_by
  rw [sub_tdiv_mul]
  exact natAbs_tmod_lt r₀ _h

/-- The inverse of `a` modulo `m`, if they have no common divisor. -/
def inverseMod? (a m : Int) : Except RuntimeError (Option Int) := do
  let modulus ← uncheckedWide .negation m.natAbs
  let (gcd, coefficient) ← gcdWithCoefficient (a.emod modulus) modulus 1 0
  return if gcd = 1 then some (coefficient.emod modulus) else none

/-- The base and the exponent of a power of residues, the exponent not negative. A negative
exponent asks for the power of an inverse, and is negated whatever it is. -/
def residuePower (base : Int) (e m : Int64) : Except RuntimeError (Int × Nat) :=
  if e < 0 then do
    match ← inverseMod? base m.toInt with
    | some inverse => return (inverse, (← uncheckedInt .negation (-e.toInt)).toInt.toNat)
    | none => throw (.value .notInvertible)
  else return (base, e.toInt.toNat)

/-- The power `b ^ e` reduced modulo `m`, with the sign of `m`. -/
def intPowMod (b e m : Int64) : Except RuntimeError Int64 :=
  if m = 0 then .error (.value .zeroModulus)
  else do
    let residue ← floorMod b m
    let (base, exponent) ← residuePower residue.toInt e m
    let power ← powMod m.toInt 1 base exponent
    floorMod (Int64.ofInt (power.tmod m.toInt)) m

end ExprLang
