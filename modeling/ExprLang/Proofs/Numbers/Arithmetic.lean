import ExprLang.Builtin.Conversion
import Mathlib.Tactic.Linarith
import Mathlib.Tactic.Ring

/-!
# Integer arithmetic

The integers are words of 64 bits, and no operation on them rounds or wraps around. Each one is
described by the integer that it stands for: if that fits in a word, it is the result, and if it
does not, the error says that the result is out of range (`IsExact`). This holds of the arithmetic
operators (`intArithmetic_exact`), and of the shift to the left with one exception
(`shiftLeft_exact`). The steps by which a result is found each have to fit as well, so the lemmas
show that none of them leaves the range where the result does not: `floorDiv_eq` and `floorMod_eq`
for the corrections of a quotient rounded towards zero, `powTimes_eq` for repeated squaring,
`toInt_shiftRight` and `shiftLeft_restores_iff` for the shifts.
-/

namespace ExprLang

variable {x y : Int64} {n : Int}

/-! ## Words -/

/-- What is in range passes the check. -/
theorem checkedInt_of_inRange (h : InRange n) : checkedInt n = .ok (Int64.ofInt n) :=
  if_pos h

/-- What is out of range does not. -/
theorem checkedInt_of_not_inRange (h : ¬InRange n) :
    checkedInt n = .error (.overflow .integer) :=
  if_neg h

/-- An integer passes the check as itself. -/
theorem checkedInt_toInt (x : Int64) : checkedInt x.toInt = .ok x :=
  checkedInt_eq_ok.2 ⟨inRange_toInt x, rfl⟩

/-- A step that nobody checks does what a checked one does as long as it fits. -/
theorem uncheckedInt_of_inRange (step : Panic) (h : InRange n) :
    uncheckedInt step n = checkedInt n := by
  unfold uncheckedInt checkedInt
  rw [if_pos h, if_pos h]

theorem toInt_eq_zero : x.toInt = 0 ↔ x = 0 := by
  rw [← Int64.toInt_inj, Int64.toInt_zero]

theorem lt_zero_iff : x < 0 ↔ x.toInt < 0 := by
  rw [Int64.lt_iff_toInt_lt, Int64.toInt_zero]

theorem eq_one_iff : x = 1 ↔ x.toInt = 1 := by
  rw [← Int64.toInt_inj, Int64.toInt_one]

theorem eq_neg_one_iff : x = -1 ↔ x.toInt = -1 := by
  rw [← Int64.toInt_inj]
  rfl

theorem eq_sixtyThree_iff : x = 63 ↔ x.toInt = 63 := by
  rw [← Int64.toInt_inj]
  rfl

theorem sixtyThree_le_iff : 63 ≤ x ↔ 63 ≤ x.toInt := by
  rw [Int64.le_iff_toInt_le]
  rfl

theorem sixtyFour_le_iff : 64 ≤ x ↔ 64 ≤ x.toInt := by
  rw [Int64.le_iff_toInt_le]
  rfl

/-! ## Quotients -/

/-- Whether an integer may be left over by a quotient rounded down: it lies between zero and the
divisor, zero included. -/
def IsRemainder (r y : Int) : Prop :=
  0 ≤ r ∧ r < y ∨ y < r ∧ r ≤ 0

/-- The quotient rounded towards zero is above the one rounded down where something of the other
sign than the divisor is left over. -/
theorem fdiv_eq_ite (x : Int) {y : Int} (hy : y ≠ 0) :
    x.fdiv y = if x.tmod y ≠ 0 ∧ (x < 0 ↔ ¬y < 0) then x.tdiv y - 1 else x.tdiv y := by
  have hdvd : y ∣ x ↔ x.tmod y = 0 := Int.dvd_iff_tmod_eq_zero
  have hzero : x = 0 → x.tmod y = 0 := fun h => by rw [h, Int.zero_tmod]
  rw [Int.fdiv_eq_tdiv]
  rcases Int.lt_or_gt_of_ne hy with hneg | hpos
  · rw [Int.sign_eq_neg_one_of_neg hneg]
    split_ifs <;> grind
  · rw [Int.sign_eq_one_of_pos hpos]
    split_ifs <;> grind

/-- The remainder with the sign of the divisor, from the one with the sign of the dividend. -/
theorem fmod_eq_ite (x : Int) {y : Int} (hy : y ≠ 0) :
    x.fmod y = if x.tmod y ≠ 0 ∧ (x < 0 ↔ ¬y < 0) then x.tmod y + y else x.tmod y := by
  have hquotient := fdiv_eq_ite x hy
  have hfloor := Int.mul_fdiv_add_fmod x y
  have htrunc := Int.mul_tdiv_add_tmod x y
  split_ifs at hquotient ⊢
  · rw [hquotient] at hfloor
    linarith
  · rw [hquotient] at hfloor
    linarith

/-- What is left over by a quotient rounded towards zero has the sign of the dividend. -/
theorem tmod_sign (x y : Int) : (0 ≤ x → 0 ≤ x.tmod y) ∧ (x ≤ 0 → x.tmod y ≤ 0) := by
  refine ⟨Int.tmod_nonneg y, fun hx => ?_⟩
  have hneg := Int.tmod_nonneg y (a := -x) (by omega)
  rw [Int.neg_tmod] at hneg
  omega

/-- A floored remainder is on its divisor's side of zero and smaller. -/
theorem isRemainder_fmod (x : Int) {y : Int} (hy : y ≠ 0) : IsRemainder (x.fmod y) y := by
  have hlt := natAbs_tmod_lt x hy
  have hsign := tmod_sign x y
  rw [fmod_eq_ite x hy]
  unfold IsRemainder
  split_ifs <;> omega

/-- A remainder is in range if its divisor is. -/
theorem IsRemainder.inRange {r y : Int} (h : IsRemainder r y) (hy : InRange y) : InRange r := by
  unfold IsRemainder InRange at *
  omega

/-- A divisor other than 1 and -1 halves a number at least. -/
theorem natAbs_tdiv_le_half (x : Int) {y : Int} (hy : y.natAbs ≠ 1) :
    (x.tdiv y).natAbs ≤ x.natAbs / 2 := by
  rw [Int.natAbs_tdiv]
  show x.natAbs / y.natAbs ≤ x.natAbs / 2
  rcases Nat.eq_zero_or_pos y.natAbs with hzero | hpos
  · simp [hzero]
  · exact Nat.div_le_div_left (by omega) (by decide)

/-- Only the quotient by -1 may not fit. -/
theorem inRange_tdiv (x : Int64) (hy : y ≠ -1) : InRange (x.toInt.tdiv y.toInt) := by
  have hx := inRange_toInt x
  rw [Ne, eq_neg_one_iff] at hy
  by_cases hone : y.toInt = 1
  · rwa [hone, Int.tdiv_one]
  · have hle := natAbs_tdiv_le_half x.toInt (y := y.toInt) (by omega)
    unfold InRange at *
    omega

/-- Where something is left over, there is room below the quotient. -/
theorem inRange_tdiv_sub_one (x : Int64) (hrest : x.toInt.tmod y.toInt ≠ 0) :
    InRange (x.toInt.tdiv y.toInt - 1) := by
  have hx := inRange_toInt x
  have hy : y.toInt.natAbs ≠ 1 := by
    intro hone
    refine hrest (Int.dvd_iff_tmod_eq_zero.1 (Int.natAbs_dvd_natAbs.1 ?_))
    rw [hone]
    exact one_dvd _
  have hle := natAbs_tdiv_le_half x.toInt hy
  unfold InRange at *
  omega

/-- A remainder that is not checked is right if the quotient fits. -/
theorem uncheckedRemainder_of_inRange (h : InRange (x.toInt.tdiv y.toInt)) :
    uncheckedRemainder x y = .ok (x % y) := by
  unfold uncheckedRemainder
  rw [uncheckedInt_of_inRange _ h, checkedInt_of_inRange h]
  rfl

/-- The floored quotient is right or out of range. -/
theorem floorDiv_eq (x : Int64) (hy : y ≠ 0) :
    floorDiv x y = checkedInt (x.toInt.fdiv y.toInt) := by
  have hy' : y.toInt ≠ 0 := mt toInt_eq_zero.1 hy
  rw [fdiv_eq_ite _ hy']
  unfold floorDiv
  by_cases hfits : InRange (x.toInt.tdiv y.toInt)
  · rw [checkedInt_of_inRange hfits, uncheckedRemainder_of_inRange hfits]
    simp only [bind, Except.bind, Ne, ← toInt_eq_zero, lt_zero_iff, Int64.toInt_mod,
      toInt_ofInt_of_inRange hfits]
    split
    · next hrest => exact uncheckedInt_of_inRange _ (inRange_tdiv_sub_one x hrest.1)
    · exact (checkedInt_of_inRange hfits).symm
  · have hminus : y.toInt = -1 := by
      rw [← eq_neg_one_iff]
      exact by_contra fun h => hfits (inRange_tdiv x h)
    have hzero : x.toInt.tmod y.toInt = 0 := by rw [hminus, Int.tmod_neg, Int.tmod_one]
    rw [if_neg fun h => h.1 hzero, checkedInt_of_not_inRange hfits]
    rfl

/-- The floored remainder is right, and it is never out of range. -/
theorem floorMod_eq (x : Int64) (hy : y ≠ 0) :
    floorMod x y = checkedInt (x.toInt.fmod y.toInt) := by
  have hy' : y.toInt ≠ 0 := mt toInt_eq_zero.1 hy
  have hmod := fmod_eq_ite x.toInt hy'
  have hfits := (isRemainder_fmod x.toInt hy').inRange (inRange_toInt y)
  unfold floorMod
  split
  · next hminus =>
    have hdvd : (-1 : Int) ∣ x.toInt := ⟨-x.toInt, by ring⟩
    rw [eq_neg_one_iff.1 hminus, Int.fmod_eq_zero_of_dvd hdvd]
    rfl
  · next hminus =>
    have hsign := tmod_sign x.toInt y.toInt
    rw [uncheckedRemainder_of_inRange (inRange_tdiv x hminus)]
    simp only [bind, Except.bind, Ne, ← toInt_eq_zero, lt_zero_iff, Int64.toInt_mod]
    have hsame : (x.toInt.tmod y.toInt ≠ 0 ∧ (x.toInt.tmod y.toInt < 0 ↔ ¬y.toInt < 0)) ↔
        (x.toInt.tmod y.toInt ≠ 0 ∧ (x.toInt < 0 ↔ ¬y.toInt < 0)) := by omega
    rw [hmod] at hfits ⊢
    simp only [hsame]
    split
    · next hrest =>
      rw [if_pos hrest] at hfits
      exact uncheckedInt_of_inRange _ hfits
    · rw [← Int64.toInt_mod, checkedInt_toInt]
      rfl

/-! ## Powers -/

/-- No multiple of what is out of range is in range, zero aside. -/
theorem not_inRange_mul {a k : Int} (ha : ¬InRange a) (hk : 0 < k) : ¬InRange (a * k) := by
  unfold InRange at *
  rcases Int.lt_or_le a 0 with hneg | hnonneg
  · have hle : a * k ≤ a * 1 := Int.mul_le_mul_of_nonpos_left (by omega) (by omega)
    omega
  · have hle : a * 1 ≤ a * k := Int.mul_le_mul_of_nonneg_left (by omega) hnonneg
    omega

/-- No square is the least integer above the range. -/
theorem lt_mul_self_of_not_inRange {b : Int} (hb : ¬InRange (b * b)) :
    9223372036854775808 < b * b := by
  have hnonneg : 0 ≤ b * b := mul_self_nonneg b
  by_cases hroot : b.natAbs ≤ 3037000499
  · have hle : b.natAbs * b.natAbs ≤ 3037000499 * 3037000499 := Nat.mul_le_mul hroot hroot
    have habs := Int.natAbs_mul_self' b
    unfold InRange at hb
    omega
  · have hle : 3037000500 * 3037000500 ≤ b.natAbs * b.natAbs :=
      Nat.mul_le_mul (by omega) (by omega)
    have habs := Int.natAbs_mul_self' b
    omega

theorem not_inRange_of_lt_natAbs (h : 9223372036854775808 < n.natAbs) : ¬InRange n := by
  unfold InRange
  omega

/-- If a square on the way is out of range then so is the power. -/
theorem not_inRange_mul_mul_self_pow {a b : Int} {k : Nat} (ha : a ≠ 0)
    (hb : ¬InRange (b * b)) (hk : 0 < k) : ¬InRange (a * (b * b) ^ k) := by
  have hlarge := lt_mul_self_of_not_inRange hb
  have hpower : b * b ≤ (b * b) ^ k := le_self_pow₀ (by omega) hk.ne'
  apply not_inRange_of_lt_natAbs
  rw [Int.natAbs_mul]
  calc 9223372036854775808
    _ < ((b * b) ^ k).natAbs := by omega
    _ ≤ _ := Nat.le_mul_of_pos_left _ (Int.natAbs_pos.2 ha)

/-- The odd factor of a power. -/
theorem timesOdd_eq (acc base : Int64) (e : Nat) :
    timesOdd acc base e = checkedInt (acc.toInt * base.toInt ^ (e % 2)) := by
  unfold timesOdd
  rcases Nat.mod_two_eq_zero_or_one e with heven | hodd
  · rw [if_neg (by omega), heven, pow_zero, mul_one, checkedInt_toInt]
  · rw [if_pos hodd, hodd, pow_one]

theorem pow_eq_mul_self_pow (b : Int) (e : Nat) : b ^ e = b ^ (e % 2) * (b * b) ^ (e / 2) := by
  rw [← pow_two, ← pow_mul, ← pow_add, Nat.mod_add_div]

/-- Whatever is multiplied or squared on the way divides the power, so it fits where the power
does; the base is not squared once more than that. -/
theorem powTimes_eq (acc base : Int64) (e : Nat) (hacc : acc ≠ 0) (hbase : base ≠ 0) :
    powTimes acc base e = checkedInt (acc.toInt * base.toInt ^ e) := by
  induction e using Nat.strong_induction_on generalizing acc base with
  | _ e ih =>
    have hsquare : 0 < base.toInt * base.toInt :=
      mul_self_pos.2 (mt toInt_eq_zero.1 hbase)
    have hsplit : acc.toInt * base.toInt ^ e =
        acc.toInt * base.toInt ^ (e % 2) * (base.toInt * base.toInt) ^ (e / 2) := by
      rw [mul_assoc, ← pow_eq_mul_self_pow]
    rw [powTimes, timesOdd_eq, hsplit]
    by_cases hfits : InRange (acc.toInt * base.toInt ^ (e % 2))
    · rw [checkedInt_of_inRange hfits]
      have hword := toInt_ofInt_of_inRange hfits
      have hne : Int64.ofInt (acc.toInt * base.toInt ^ (e % 2)) ≠ 0 := by
        rw [Ne, ← toInt_eq_zero, hword]
        exact mul_ne_zero (mt toInt_eq_zero.1 hacc)
          (pow_ne_zero _ (mt toInt_eq_zero.1 hbase))
      generalize Int64.ofInt (acc.toInt * base.toInt ^ (e % 2)) = collected at hword hne
      rw [← hword]
      simp only [bind, Except.bind]
      by_cases hlast : e ≤ 1
      · have hnone : e / 2 = 0 := by omega
        rw [dif_pos hlast, hnone, pow_zero, mul_one, checkedInt_toInt]
        rfl
      -- The square is a factor of what is left, so it has to fit unless the power does not.
      rw [dif_neg hlast]
      by_cases hroom : InRange (base.toInt * base.toInt)
      · have hbase' : Int64.ofInt (base.toInt * base.toInt) ≠ 0 := by
          rw [Ne, ← toInt_eq_zero, toInt_ofInt_of_inRange hroom]
          exact hsquare.ne'
        rw [checkedInt_of_inRange hroom]
        simp only
        rw [ih (e / 2) (by omega) _ _ hne hbase', toInt_ofInt_of_inRange hroom]
      · have hleft := not_inRange_mul_mul_self_pow (k := e / 2)
          (mt toInt_eq_zero.1 hne) hroom (by omega)
        rw [checkedInt_of_not_inRange hroom, checkedInt_of_not_inRange hleft]
    · rw [checkedInt_of_not_inRange hfits,
        checkedInt_of_not_inRange (not_inRange_mul hfits (pow_pos hsquare _))]
      rfl

/-- Bases other than 0, 1 and -1 grow. -/
theorem two_le_natAbs (hzero : x ≠ 0) (hone : x ≠ 1) (hminus : x ≠ -1) :
    2 ≤ x.toInt.natAbs := by
  rw [Ne, ← toInt_eq_zero] at hzero
  rw [Ne, eq_one_iff] at hone
  rw [Ne, eq_neg_one_iff] at hminus
  omega

/-- The checks on the way fail only if the power itself is out of range. -/
theorem intPow_eq (x : Int64) (e : Nat) : intPow x e = checkedInt (x.toInt ^ e) := by
  unfold intPow
  split_ifs with hzero hnone hone hminus heven hmax
  · rw [hzero, hnone, pow_zero]
    rfl
  · rw [hzero, Int64.toInt_zero, zero_pow hnone]
    rfl
  · rw [hone, Int64.toInt_one, one_pow]
    rfl
  · rw [eq_neg_one_iff.1 hminus, (Nat.even_iff.2 heven).neg_one_pow]
    rfl
  · rw [eq_neg_one_iff.1 hminus, (Nat.odd_iff.2 (by omega)).neg_one_pow]
    rfl
  · rw [checkedInt_of_not_inRange]
    apply not_inRange_of_lt_natAbs
    rw [Int.natAbs_pow]
    calc 9223372036854775808
      _ < 2 ^ 64 := by decide
      _ ≤ 2 ^ e := Nat.pow_le_pow_right (by decide) (by unfold maxExponent at hmax; omega)
      _ ≤ x.toInt.natAbs ^ e := Nat.pow_le_pow_left (two_le_natAbs hzero hone hminus) e
  · rw [powTimes_eq 1 x e (by decide) hzero, Int64.toInt_one, one_mul]

/-! ## Shifts -/

theorem toNat_shiftCount (hy : 0 ≤ y.toInt) (hlt : y.toInt < 64) :
    (y.toBitVec.smod 64).toNat = y.toInt.toNat := by
  have hcount : (y.toBitVec.smod 64).toInt = y.toInt := by
    rw [BitVec.toInt_smod, Int64.toInt_toBitVec]
    exact Int.fmod_eq_of_lt hy hlt
  rw [BitVec.toInt_eq_toNat_cond] at hcount
  have hlt' := (y.toBitVec.smod 64).isLt
  split_ifs at hcount <;> omega

/-- A shift of bits to the right divides and rounds down. -/
theorem toInt_shiftRight (x : Int64) (hy : 0 ≤ y.toInt) (hlt : y.toInt < 64) :
    (x >>> y).toInt = x.toInt / 2 ^ y.toInt.toNat := by
  rw [← Int64.toInt_toBitVec, Int64.toBitVec_shiftRight, BitVec.sshiftRight',
    BitVec.toInt_sshiftRight, toNat_shiftCount hy hlt, Int64.toInt_toBitVec,
    Int.shiftRight_eq_div_pow]
  norm_cast

/-- A shift of bits to the left multiplies and drops the bits above. -/
theorem toInt_shiftLeft (x : Int64) (hy : 0 ≤ y.toInt) (hlt : y.toInt < 63) :
    (x <<< y).toInt = (x.toInt * 2 ^ y.toInt.toNat).bmod (2 ^ 64) := by
  rw [← Int64.toInt_toBitVec, Int64.toBitVec_shiftLeft, BitVec.shiftLeft_eq',
    toNat_shiftCount hy (by omega), BitVec.shiftLeft_eq_mul_twoPow, BitVec.toInt_mul,
    BitVec.toInt_twoPow, if_neg (by omega), if_neg (by omega), Int64.toInt_toBitVec]

theorem toInt_shiftLeft_of_inRange (hy : 0 ≤ y.toInt) (hlt : y.toInt < 63)
    (h : InRange (x.toInt * 2 ^ y.toInt.toNat)) :
    (x <<< y).toInt = x.toInt * 2 ^ y.toInt.toNat := by
  rw [toInt_shiftLeft x hy hlt]
  exact Int.bmod_eq_of_le h.1 h.2

/-- What is lost by a shift to the left is a multiple of the power by which it multiplies, so the
shift back does not make up for it. -/
theorem shiftLeft_restores_iff (hy : 0 ≤ y.toInt) (hlt : y.toInt < 63) :
    (x <<< y) >>> y = x ↔ InRange (x.toInt * 2 ^ y.toInt.toNat) := by
  have hpos : (0 : Int) < 2 ^ y.toInt.toNat := by positivity
  rw [← Int64.toInt_inj, toInt_shiftRight _ hy (by omega)]
  constructor
  · intro hback
    have hdvd : (2 : Int) ^ y.toInt.toNat ∣ (x <<< y).toInt := by
      have hwide : (2 : Int) ^ y.toInt.toNat ∣ 2 ^ 64 := pow_dvd_pow 2 (by omega)
      have hlost := toInt_shiftLeft x hy hlt
      rw [Int.bmod_eq_self_sub_mul_bdiv] at hlost
      rw [hlost]
      exact Int.dvd_sub (dvd_mul_left _ _) (hwide.mul_right _)
    rw [← hback, Int.ediv_mul_cancel hdvd]
    exact inRange_toInt _
  · intro h
    rw [toInt_shiftLeft_of_inRange hy hlt h, Int.mul_ediv_cancel _ hpos.ne']

/-- All bits shifted out leave the sign. -/
theorem ediv_pow_of_inRange {a : Int} {k : Nat} (ha : InRange a) (hk : 64 ≤ k) :
    a / 2 ^ k = if a < 0 then -1 else 0 := by
  have hpow : (2 : Int) ^ 64 ≤ 2 ^ k := pow_le_pow_right₀ (by decide) hk
  unfold InRange at ha
  split_ifs with hneg
  · exact Int.ediv_eq_neg_one_of_neg_of_le hneg (by omega)
  · exact Int.ediv_eq_zero_of_lt (by omega) (by omega)

/-- A shift to the right, however far. -/
theorem intShiftRight_eq (x : Int64) (hy : 0 ≤ y.toInt) :
    intShiftRight x y = checkedInt (x.toInt.fdiv (2 ^ y.toInt.toNat)) := by
  have hpos : (0 : Int) < 2 ^ y.toInt.toNat := by positivity
  unfold intShiftRight
  rw [if_neg (by rw [lt_zero_iff]; omega), Int.fdiv_eq_ediv_of_nonneg _ hpos.le]
  simp only [sixtyFour_le_iff, lt_zero_iff]
  by_cases hlarge : 64 ≤ y.toInt
  · rw [if_pos hlarge, ediv_pow_of_inRange (inRange_toInt x) (by omega)]
    split <;> rfl
  · rw [if_neg hlarge, ← toInt_shiftRight x hy (by omega), checkedInt_toInt]

/-- From 63 places on, no integer but zero fits, save for -1 shifted by 63 places. -/
theorem not_inRange_mul_pow {x : Int} {n : Nat} (hx : x ≠ 0) (hn : 63 ≤ n)
    (hexcept : ¬(x = -1 ∧ n = 63)) : ¬InRange (x * 2 ^ n) := by
  have habs : (x * 2 ^ n).natAbs = x.natAbs * 2 ^ n := by rw [Int.natAbs_mul, Int.natAbs_pow]; rfl
  rcases Nat.lt_or_ge 63 n with hlarge | hsmall
  · have hpow : 2 ^ 64 ≤ 2 ^ n := Nat.pow_le_pow_right (by decide) hlarge
    have hle : 1 * 2 ^ n ≤ x.natAbs * 2 ^ n := Nat.mul_le_mul_right _ (Int.natAbs_pos.2 hx)
    exact not_inRange_of_lt_natAbs (by omega)
  · obtain rfl : n = 63 := by omega
    unfold InRange
    omega

/-- A shift to the left, but for the one product that fits and is refused. -/
theorem intShiftLeft_eq (hy : 0 ≤ y.toInt) (hexcept : ¬(x = -1 ∧ y = 63)) :
    intShiftLeft x y = checkedInt (x.toInt * 2 ^ y.toInt.toNat) := by
  unfold intShiftLeft
  rw [if_neg (by rw [lt_zero_iff]; omega)]
  split_ifs with hzero hlarge hback
  · rw [hzero, Int64.toInt_zero, zero_mul]
    rfl
  · rw [checkedInt_of_not_inRange]
    rw [sixtyThree_le_iff] at hlarge
    rw [eq_neg_one_iff, eq_sixtyThree_iff] at hexcept
    exact not_inRange_mul_pow (mt toInt_eq_zero.1 hzero) (by omega) (by omega)
  · rw [sixtyThree_le_iff] at hlarge
    have hfits := (shiftLeft_restores_iff hy (by omega)).1 hback
    rw [← toInt_shiftLeft_of_inRange hy (by omega) hfits, checkedInt_toInt]
  · rw [sixtyThree_le_iff] at hlarge
    rw [checkedInt_of_not_inRange (mt (shiftLeft_restores_iff hy (by omega)).2 hback)]

/-! ## Operators -/

/-- Whether a result is the given integer, or the error that it does not fit in a word. -/
structure IsExact (n : Int) (result : Except RuntimeError Value) : Prop where
  /-- An integer that fits is the result. -/
  gives : InRange n → ∃ k : Int64, k.toInt = n ∧ result = .ok (.int k)
  /-- No other integer is a result. -/
  refuses : ¬InRange n → result = .error (.overflow .integer)

theorem isExact_checkedInt (n : Int) :
    IsExact n (((checkedInt n).map Number.int).map Value.ofNumber) := by
  constructor
  · intro h
    rw [checkedInt_of_inRange h]
    exact ⟨Int64.ofInt n, toInt_ofInt_of_inRange h, rfl⟩
  · intro h
    rw [checkedInt_of_not_inRange h]
    rfl

/-- An operator on two integers is that of the integers. -/
theorem binaryOp_int (id : Identity) (op : BinaryOp) {result : Except RuntimeError Number}
    (h : intBinary? op x y = some result) :
    Value.binaryOp id op (.int x) (.int y) = result.map Value.ofNumber := by
  have hnumeric : Value.numericOp? op (.int x) (.int y) = some (result.map Value.ofNumber) := by
    show (intBinary? op x y).map _ = _
    rw [h]
    rfl
  unfold Value.binaryOp
  rw [hnumeric]
  rfl

/-- Sums, differences, products, quotients, powers, shifts to the right, negatives and magnitudes
of integers are exact or refused. Quotients are rounded down, with what is left over of them, and a
shift to the right is such a quotient. -/
theorem intArithmetic_exact (id : Identity) (x y : Int64) :
    IsExact (x.toInt + y.toInt) (Value.binaryOp id .add (.int x) (.int y)) ∧
    IsExact (x.toInt - y.toInt) (Value.binaryOp id .sub (.int x) (.int y)) ∧
    IsExact (x.toInt * y.toInt) (Value.binaryOp id .mul (.int x) (.int y)) ∧
    (if y = 0 then
      Value.binaryOp id .floorDiv (.int x) (.int y) = .error (.division .intFloor) ∧
      Value.binaryOp id .mod (.int x) (.int y) = .error (.division .intFloor)
    else
      IsExact (x.toInt.fdiv y.toInt) (Value.binaryOp id .floorDiv (.int x) (.int y)) ∧
      IsExact (x.toInt.fmod y.toInt) (Value.binaryOp id .mod (.int x) (.int y)) ∧
      x.toInt = x.toInt.fdiv y.toInt * y.toInt + x.toInt.fmod y.toInt ∧
      IsRemainder (x.toInt.fmod y.toInt) y.toInt) ∧
    (if y < 0 then
      Value.binaryOp id .shiftRight (.int x) (.int y) = .error (.value .negativeShift)
    else
      IsExact (x.toInt ^ y.toInt.toNat) (Value.binaryOp id .pow (.int x) (.int y)) ∧
      IsExact (x.toInt.fdiv (2 ^ y.toInt.toNat))
        (Value.binaryOp id .shiftRight (.int x) (.int y))) ∧
    IsExact (-x.toInt) (Value.unaryOp .neg (.int x)) ∧
    IsExact |x.toInt| (Value.magnitude (.int x)) := by
  refine ⟨?add, ?sub, ?mul, ?quotient, ?power, ?neg, ?abs⟩
  case add => exact binaryOp_int id .add rfl ▸ isExact_checkedInt _
  case sub => exact binaryOp_int id .sub rfl ▸ isExact_checkedInt _
  case mul => exact binaryOp_int id .mul rfl ▸ isExact_checkedInt _
  case quotient =>
    rw [binaryOp_int id .floorDiv rfl, binaryOp_int id .mod rfl]
    unfold intFloorDiv intMod
    split_ifs with hzero
    · exact ⟨rfl, rfl⟩
    · have hy : y.toInt ≠ 0 := mt toInt_eq_zero.1 hzero
      rw [floorDiv_eq x hzero, floorMod_eq x hzero]
      exact ⟨isExact_checkedInt _, isExact_checkedInt _, (Int.fdiv_mul_add_fmod _ _).symm,
        isRemainder_fmod _ hy⟩
  case power =>
    rw [binaryOp_int id .pow rfl, binaryOp_int id .shiftRight rfl]
    split_ifs with hneg
    · unfold intShiftRight
      rw [if_pos hneg]
      rfl
    · have hcount : 0 ≤ y.toInt := by rwa [lt_zero_iff, not_lt] at hneg
      unfold intPower
      rw [if_neg hneg, intPow_eq, intShiftRight_eq x hcount]
      exact ⟨isExact_checkedInt _, isExact_checkedInt _⟩
  case neg => exact isExact_checkedInt _
  case abs =>
    rw [Int.abs_eq_natAbs]
    exact isExact_checkedInt _

example : Value.binaryOp 0 .floorDiv (.int Int64.minValue) (.int (-1)) =
    .error (.overflow .integer) := rfl

example : Value.binaryOp 0 .mod (.int Int64.minValue) (.int (-1)) = .ok (.int 0) := rfl

/-- The shift to the left is exact or refuses, save that it refuses -1 shifted by 63 places,
which is the least integer that fits. -/
theorem shiftLeft_exact (id : Identity) (x y : Int64) :
    if y < 0 then
      Value.binaryOp id .shiftLeft (.int x) (.int y) = .error (.value .negativeShift)
    else if x = -1 ∧ y = 63 then
      InRange (x.toInt * 2 ^ y.toInt.toNat) ∧
      Value.binaryOp id .shiftLeft (.int x) (.int y) = .error (.overflow .integer)
    else
      IsExact (x.toInt * 2 ^ y.toInt.toNat) (Value.binaryOp id .shiftLeft (.int x) (.int y)) := by
  rw [binaryOp_int id .shiftLeft rfl]
  split_ifs with hneg hexcept
  · unfold intShiftLeft
    rw [if_pos hneg]
    rfl
  · rw [hexcept.1, hexcept.2]
    exact ⟨by decide, rfl⟩
  · rw [intShiftLeft_eq (by rwa [lt_zero_iff, not_lt] at hneg) hexcept]
    exact isExact_checkedInt _

theorem not_shiftLeft_exact :
    ¬∀ (id : Identity) (x y : Int64), 0 ≤ y →
      IsExact (x.toInt * 2 ^ y.toInt.toNat)
        (Value.binaryOp id .shiftLeft (.int x) (.int y)) := by
  intro h
  obtain ⟨k, -, hk⟩ := (h 0 (-1) 63 (by decide)).gives (by decide)
  cases hk

end ExprLang
