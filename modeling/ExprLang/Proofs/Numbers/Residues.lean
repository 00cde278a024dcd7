import ExprLang.Builtin.Function
import ExprLang.Proofs.Numbers.Arithmetic
import Mathlib.Data.Int.ModEq
import Mathlib.Tactic.LinearCombination

/-!
# Powers of residues

With a modulus, `pow` gives the power among the remainders of the modulus (`run_pow_residue`). It is
found by squaring, and for a negative exponent from an inverse, which Euclid's algorithm finds. Both
work on words of 128 bits. All that they multiply is at most as large as a modulus can be (`Small`),
squaring because it reduces as it goes (`powMod_spec`), and Euclid's algorithm because its
coefficients and remainders balance (`Euclid`, `Euclid.step`). So no step overflows, but for one:
the least exponent is negated without a look at whether that fits (`intPowMod_eq_panic_iff`).
-/

namespace ExprLang

/-! ## Words of 128 bits -/

/-- Whether an integer is one of those between which the steps below multiply. A product of two
fits in a word of 128 bits. -/
def Small (n : Int) : Prop := n.natAbs ≤ 9223372036854775808

/-- Integers of the language are small. -/
theorem small_toInt (x : Int64) : Small x.toInt := by
  have hx := inRange_toInt x
  unfold InRange at hx
  unfold Small
  omega

/-- Small numbers are in the wide range. -/
theorem Small.inWideRange {n : Int} (h : Small n) : InWideRange n := by
  unfold Small at h
  unfold InWideRange
  omega

theorem Small.inWideRange_mul {a b : Int} (ha : Small a) (hb : Small b) :
    InWideRange (a * b) := by
  unfold Small at ha hb
  have hle : (a * b).natAbs ≤ 9223372036854775808 * 9223372036854775808 := by
    rw [Int.natAbs_mul]
    exact Nat.mul_le_mul ha hb
  unfold InWideRange
  omega

/-- Residues of a small modulus are small. -/
theorem small_emod (a : Int) {m : Int} (hm : m ≠ 0) (hsmall : Small m) : Small (a % m) := by
  have hnonneg := Int.emod_nonneg a hm
  have hlt := Int.emod_lt_abs a hm
  rw [Int.abs_eq_natAbs] at hlt
  unfold Small at *
  omega

/-- A wide step that is in range does not overflow. -/
theorem uncheckedWide_of_inWideRange (step : Panic) {n : Int} (h : InWideRange n) :
    uncheckedWide step n = .ok n := by
  unfold uncheckedWide
  exact if_pos h

/-- Wide steps that are all in range do not overflow. -/
theorem takeWideSteps_of_inWideRange {steps : List (Panic × Int)}
    (h : ∀ p ∈ steps, InWideRange p.2) : takeWideSteps steps = .ok () := by
  induction steps with
  | nil => rfl
  | cons p steps ih =>
    rw [List.forall_mem_cons] at h
    unfold takeWideSteps
    rw [uncheckedWide_of_inWideRange p.1 h.1]
    exact ih h.2

/-! ## Squaring -/

/-- The odd factor of a power of residues. -/
theorem timesOddMod_spec {m acc base : Int} (e : Nat) (hm : m ≠ 0) (hsmall : Small m)
    (hacc : Small acc) (hbase : Small base) :
    ∃ k, timesOddMod m acc base e = .ok k ∧ Small k ∧ k ≡ acc * base ^ (e % 2) [ZMOD m] := by
  unfold timesOddMod
  rcases Nat.mod_two_eq_zero_or_one e with heven | hodd
  · rw [if_neg (by omega), heven, pow_zero, mul_one]
    exact ⟨acc, rfl, hacc, Int.ModEq.refl acc⟩
  · rw [if_pos hodd, hodd, pow_one, uncheckedWide_of_inWideRange _ (hacc.inWideRange_mul hbase)]
    exact ⟨_, rfl, small_emod _ hm hsmall, Int.mod_modEq _ m⟩

/-- Powers of residues by squaring stay small. -/
theorem powMod_spec {m acc base : Int} (e : Nat) (hm : m ≠ 0) (hsmall : Small m)
    (hacc : Small acc) (hbase : Small base) :
    ∃ k, powMod m acc base e = .ok k ∧ Small k ∧ k ≡ acc * base ^ e [ZMOD m] := by
  induction e using Nat.strong_induction_on generalizing acc base with
  | _ e ih =>
    rw [powMod]
    split
    · next hzero =>
      rw [hzero, pow_zero, mul_one]
      exact ⟨acc, rfl, hacc, Int.ModEq.refl acc⟩
    · next hzero =>
      obtain ⟨collected, heq, hcollected, hmod⟩ := timesOddMod_spec e hm hsmall hacc hbase
      obtain ⟨k, hk, hksmall, hkmod⟩ :=
        ih (e / 2) (by omega) hcollected (small_emod (base * base) hm hsmall)
      rw [heq, uncheckedWide_of_inWideRange _ (hbase.inWideRange_mul hbase)]
      refine ⟨k, hk, hksmall, hkmod.trans ?_⟩
      rw [pow_eq_mul_self_pow base e, ← mul_assoc]
      exact hmod.mul ((Int.mod_modEq _ m).pow _)

/-! ## Inverses -/

/-- What holds of the remainders `r₀` and `r₁` and of their coefficients `s₀` and `s₁` all along
the search for the greatest common divisor of `a` and `m`. -/
structure Euclid (a m r₀ r₁ s₀ s₁ : Int) : Prop where
  nonneg₀ : 0 ≤ r₀
  nonneg₁ : 0 ≤ r₁
  le₀ : r₀ ≤ m
  le₁ : r₁ ≤ m
  gcd_eq : Int.gcd r₀ r₁ = Int.gcd a m
  modEq₀ : r₀ ≡ s₀ * a [ZMOD m]
  modEq₁ : r₁ ≡ s₁ * a [ZMOD m]
  /-- The coefficients have opposite signs, and crosswise with the remainders they add up to the
  modulus. So neither exceeds it as long as there is a remainder. -/
  balance : 0 ≤ s₀ ∧ s₁ ≤ 0 ∧ s₀ * r₁ - s₁ * r₀ = m ∨ s₀ ≤ 0 ∧ 0 ≤ s₁ ∧ s₁ * r₀ - s₀ * r₁ = m

variable {a m r₀ r₁ s₀ s₁ : Int}

/-- The algorithm starts with the two numbers and the coefficients 1 and 0. -/
theorem euclid_start {a m : Int} (ha : 0 ≤ a) (hle : a ≤ m) : Euclid a m a m 1 0 where
  nonneg₀ := ha
  nonneg₁ := ha.trans hle
  le₀ := hle
  le₁ := le_rfl
  gcd_eq := rfl
  modEq₀ := by rw [one_mul]
  modEq₁ := by
    rw [zero_mul]
    exact Int.emod_self.trans (Int.zero_emod m).symm
  balance := .inl ⟨by decide, le_rfl, by ring⟩

/-- One division keeps what is said of remainders and coefficients. -/
theorem Euclid.step (h : Euclid a m r₀ r₁ s₀ s₁) (hr : r₁ ≠ 0) :
    Euclid a m r₁ (r₀ - r₀.tdiv r₁ * r₁) s₁ (s₀ - r₀.tdiv r₁ * s₁) := by
  have hnonneg : 0 ≤ r₀.tdiv r₁ := Int.tdiv_nonneg h.nonneg₀ h.nonneg₁
  have hlt := natAbs_tmod_lt r₀ hr
  have hrest : 0 ≤ r₀.tmod r₁ := Int.tmod_nonneg _ h.nonneg₀
  rw [← sub_tdiv_mul] at hlt hrest
  generalize r₀.tdiv r₁ = q at *
  obtain ⟨nonneg₀, nonneg₁, le₀, le₁, gcd_eq, modEq₀, modEq₁, balance⟩ := h
  constructor
  case nonneg₀ => exact nonneg₁
  case nonneg₁ => exact hrest
  case le₀ => exact le₁
  case le₁ => omega
  case gcd_eq => rw [Int.gcd_sub_mul_right_right, Int.gcd_comm, gcd_eq]
  case modEq₀ => exact modEq₁
  case modEq₁ =>
    rw [sub_mul, mul_assoc]
    exact modEq₀.sub (modEq₁.mul_left q)
  case balance =>
    rcases balance with ⟨hs₀, hs₁, hm⟩ | ⟨hs₀, hs₁, hm⟩
    · right
      refine ⟨hs₁, ?_, ?_⟩
      · have := mul_nonpos_of_nonneg_of_nonpos hnonneg hs₁
        omega
      · linear_combination hm
    · left
      refine ⟨hs₁, ?_, ?_⟩
      · have := mul_nonneg hnonneg hs₁
        omega
      · linear_combination hm

/-- The coefficients stay below the modulus. -/
theorem Euclid.natAbs_le (h : Euclid a m r₀ r₁ s₀ s₁) (hr : 0 < r₀) : s₁.natAbs ≤ m.natAbs := by
  have hr₁ := h.nonneg₁
  rcases h.balance with ⟨hs₀, hs₁, hm⟩ | ⟨hs₀, hs₁, hm⟩
  · have hother : 0 ≤ s₀ * r₁ := mul_nonneg hs₀ hr₁
    have hle : s₁ * r₀ ≤ s₁ * 1 := Int.mul_le_mul_of_nonpos_left hs₁ hr
    omega
  · have hother : s₀ * r₁ ≤ 0 := mul_nonpos_of_nonpos_of_nonneg hs₀ hr₁
    have hle : s₁ * 1 ≤ s₁ * r₀ := Int.mul_le_mul_of_nonneg_left hr hs₁
    omega

/-- Nothing that a step works out exceeds the modulus. -/
theorem Euclid.takeWideSteps (h : Euclid a m r₀ r₁ s₀ s₁) (hsmall : Small m) (hr : r₁ ≠ 0) :
    ExprLang.takeWideSteps [(.division, r₀.tdiv r₁), (.multiplication, r₀.tdiv r₁ * r₁),
      (.subtraction, r₀ - r₀.tdiv r₁ * r₁), (.multiplication, r₀.tdiv r₁ * s₁),
      (.subtraction, s₀ - r₀.tdiv r₁ * s₁)] = .ok () := by
  refine takeWideSteps_of_inWideRange ?_
  have hnext := h.step hr
  have hs₂ := hnext.natAbs_le (lt_of_le_of_ne h.nonneg₁ hr.symm)
  have hq : 0 ≤ r₀.tdiv r₁ := Int.tdiv_nonneg h.nonneg₀ h.nonneg₁
  have hqle : r₀.tdiv r₁ ≤ r₀ := Int.tdiv_le_self _ h.nonneg₀
  have hproduct : (r₀.tdiv r₁ * s₁).natAbs ≤ m.natAbs := by
    rcases h.balance with ⟨hs₀, hs₁, -⟩ | ⟨hs₀, hs₁, -⟩
    · have := mul_nonpos_of_nonneg_of_nonpos hq hs₁
      omega
    · have := mul_nonneg hq hs₁
      omega
  have hbounds := And.intro h.le₀ hnext.le₁
  have hrest := hnext.nonneg₁
  unfold Small at hsmall
  simp only [List.forall_mem_cons, List.not_mem_nil, false_implies, implies_true, and_true]
  generalize r₀.tdiv r₁ = q at *
  unfold InWideRange
  omega

/-- The algorithm ends with the greatest common divisor and its coefficient. -/
theorem gcdWithCoefficient_spec (h : Euclid a m r₀ r₁ s₀ s₁) (hsmall : Small m) :
    ∃ s, gcdWithCoefficient r₀ r₁ s₀ s₁ = .ok ((Int.gcd a m : Int), s) ∧
      (Int.gcd a m : Int) ≡ s * a [ZMOD m] := by
  fun_induction gcdWithCoefficient r₀ r₁ s₀ s₁ with
  | case1 r₀ s₀ s₁ =>
    have hgcd : r₀ = Int.gcd a m := by
      rw [← h.gcd_eq, Int.gcd_zero_right, Int.natAbs_of_nonneg h.nonneg₀]
    rw [← hgcd]
    exact ⟨s₀, rfl, h.modEq₀⟩
  | case2 r₀ r₁ s₀ s₁ hr q r₂ s₂ ih =>
    obtain ⟨s, hs, hmod⟩ := ih (h.step hr)
    refine ⟨s, ?_, hmod⟩
    rw [h.takeWideSteps hsmall hr]
    exact hs

/-- Congruence does not see the sign of the modulus. -/
theorem modEq_natAbs {b c : Int} : b ≡ c [ZMOD m.natAbs] ↔ b ≡ c [ZMOD m] := by
  rw [Int.modEq_iff_dvd, Int.modEq_iff_dvd, Int.natAbs_dvd]

/-- There is an inverse exactly if there is no common divisor. -/
theorem inverseMod_spec (a : Int) (hm : m ≠ 0) (hsmall : Small m) :
    if Int.gcd a m = 1 then ∃ i, inverseMod? a m = .ok (some i) ∧ Small i ∧ i * a ≡ 1 [ZMOD m]
    else inverseMod? a m = .ok none := by
  have hpos : (m.natAbs : Int) ≠ 0 := by omega
  have hmodulus : Small m.natAbs := by unfold Small at *; omega
  obtain ⟨s, heq, hmod⟩ := gcdWithCoefficient_spec
    (euclid_start (Int.emod_nonneg a hpos)
      (Int.emod_lt_of_pos a (by omega)).le) hmodulus
  have hgcd : Int.gcd (a % m.natAbs) m.natAbs = Int.gcd a m := by
    rw [Int.gcd_emod]
    rfl
  rw [hgcd] at heq hmod
  change gcdWithCoefficient (a.emod m.natAbs) m.natAbs 1 0 = _ at heq
  have hinverse : inverseMod? a m =
      .ok (if (Int.gcd a m : Int) = 1 then some (s % m.natAbs) else none) := by
    unfold inverseMod?
    rw [uncheckedWide_of_inWideRange _ hmodulus.inWideRange]
    simp only [bind, Except.bind]
    rw [heq]
    rfl
  rw [hinverse]
  split_ifs with hone hone' hone'
  · refine ⟨_, rfl, small_emod s hpos hmodulus, modEq_natAbs.1 ?_⟩
    rw [hone, Nat.cast_one] at hmod
    calc s % m.natAbs * a
      _ ≡ s * (a % m.natAbs) [ZMOD m.natAbs] :=
        (Int.mod_modEq s _).mul (Int.mod_modEq a _).symm
      _ ≡ 1 [ZMOD m.natAbs] := hmod.symm
  · exact absurd (by rw [hone, Nat.cast_one]) hone'
  · exact absurd (by exact_mod_cast hone') hone
  · rfl

/-! ## Remainders -/

/-- Of the integers that are congruent, one is a remainder. -/
theorem IsRemainder.eq_of_modEq {r r' m : Int} (h : IsRemainder r m) (h' : IsRemainder r' m)
    (hmod : r ≡ r' [ZMOD m]) : r = r' := by
  have hdvd := hmod.symm.dvd
  have hzero : r - r' = 0 := by
    apply Int.eq_zero_of_dvd_of_natAbs_lt_natAbs hdvd
    unfold IsRemainder at h h'
    omega
  omega

/-- A floored remainder never overflows and is the residue with the sign of the modulus. -/
theorem floorMod_spec (x : Int64) {m : Int64} (hm : m ≠ 0) :
    ∃ k, floorMod x m = .ok k ∧ IsRemainder k.toInt m.toInt ∧
      k.toInt ≡ x.toInt [ZMOD m.toInt] := by
  have hremainder := isRemainder_fmod x.toInt (mt toInt_eq_zero.1 hm)
  have hfits := hremainder.inRange (inRange_toInt m)
  rw [floorMod_eq x hm, checkedInt_of_inRange hfits]
  refine ⟨_, rfl, ?_⟩
  rw [toInt_ofInt_of_inRange hfits]
  refine ⟨hremainder, Int.modEq_iff_dvd.2 ⟨x.toInt.fdiv m.toInt, ?_⟩⟩
  have := Int.mul_fdiv_add_fmod x.toInt m.toInt
  linarith

/-! ## Powers -/

variable {b e m residue : Int64}

theorem small_of_isRemainder {r : Int} (h : IsRemainder r m.toInt) : Small r := by
  have hm := small_toInt m
  unfold IsRemainder at h
  unfold Small at *
  omega

theorem inRange_tmod {power : Int} (hm : m ≠ 0) : InRange (power.tmod m.toInt) := by
  have hlt := natAbs_tmod_lt power (mt toInt_eq_zero.1 hm)
  have hsmall := small_toInt m
  unfold Small at hsmall
  unfold InRange
  omega

theorem tmod_modEq (a m : Int) : a.tmod m ≡ a [ZMOD m] :=
  Int.modEq_iff_dvd.2 ⟨a.tdiv m, by linarith [Int.mul_tdiv_add_tmod a m]⟩

/-- What becomes of the base and the exponent that a power comes down to. -/
theorem intPowMod_of_residuePower {base : Int} {exponent : Nat} (hm : m ≠ 0)
    (hresidue : floorMod b m = .ok residue)
    (hpower : residuePower residue.toInt e m = .ok (base, exponent)) (hbase : Small base) :
    ∃ k, intPowMod b e m = .ok k ∧ IsRemainder k.toInt m.toInt ∧
      k.toInt ≡ base ^ exponent [ZMOD m.toInt] := by
  have hm' := mt toInt_eq_zero.1 hm
  obtain ⟨power, hpow, -, hmod⟩ :=
    powMod_spec exponent hm' (small_toInt m) (small_toInt 1) hbase
  have hfits : InRange (power.tmod m.toInt) := inRange_tmod hm
  obtain ⟨k, hk, hremainder, hkmod⟩ := floorMod_spec (Int64.ofInt (power.tmod m.toInt)) hm
  refine ⟨k, ?_, hremainder, ?_⟩
  · unfold intPowMod
    rw [if_neg hm, hresidue]
    simp only [bind, Except.bind]
    rw [hpower]
    simp only
    rw [← Int64.toInt_one, hpow]
    exact hk
  · rw [Int64.toInt_one, one_mul] at hmod
    rw [toInt_ofInt_of_inRange hfits] at hkmod
    exact (hkmod.trans (tmod_modEq _ _)).trans hmod

/-- A power with an exponent that is not negative. -/
theorem intPowMod_of_nonneg (b : Int64) (hm : m ≠ 0) (he : ¬e < 0) :
    ∃ k, intPowMod b e m = .ok k ∧ IsRemainder k.toInt m.toInt ∧
      k.toInt ≡ b.toInt ^ e.toInt.toNat [ZMOD m.toInt] := by
  obtain ⟨residue, hresidue, hremainder, hmod⟩ := floorMod_spec b hm
  have hpower : residuePower residue.toInt e m = .ok (residue.toInt, e.toInt.toNat) := if_neg he
  obtain ⟨k, hk, hk', hkmod⟩ :=
    intPowMod_of_residuePower hm hresidue hpower (small_of_isRemainder hremainder)
  exact ⟨k, hk, hk', hkmod.trans (hmod.pow _)⟩

/-- Congruent numbers have the same greatest common divisor with the modulus. -/
theorem gcd_eq_of_modEq {a b m : Int} (h : a ≡ b [ZMOD m]) : Int.gcd a m = Int.gcd b m := by
  rw [← Int.gcd_emod a m, h.eq, Int.gcd_emod]

/-- For a negative exponent an inverse is looked for, and then the exponent is negated. -/
theorem residuePower_of_neg (base : Int) (hm : m ≠ 0) (he : e < 0) :
    if Int.gcd base m.toInt = 1 then
      ∃ i, residuePower base e m =
          (uncheckedInt .negation (-e.toInt)).map (fun n => (i, n.toInt.toNat)) ∧
        Small i ∧ i * base ≡ 1 [ZMOD m.toInt]
    else residuePower base e m = .error (.value .notInvertible) := by
  have hinverse := inverseMod_spec base (mt toInt_eq_zero.1 hm) (small_toInt m)
  unfold residuePower
  rw [if_pos he]
  split_ifs at hinverse ⊢
  · obtain ⟨i, hi, hsmall, hmod⟩ := hinverse
    refine ⟨i, ?_, hsmall, hmod⟩
    rw [hi]
    cases uncheckedInt .negation (-e.toInt) <;> rfl
  · rw [hinverse]
    rfl

/-- What goes wrong on the way to the base and the exponent goes wrong with the power. -/
theorem intPowMod_of_error {cause : RuntimeError} (hm : m ≠ 0)
    (hresidue : floorMod b m = .ok residue)
    (hpower : residuePower residue.toInt e m = .error cause) : intPowMod b e m = .error cause := by
  unfold intPowMod
  rw [if_neg hm, hresidue]
  simp only [bind, Except.bind]
  rw [hpower]

/-- A negative exponent asks for the power of an inverse. -/
theorem intPowMod_of_neg (b : Int64) (hm : m ≠ 0) (he : e < 0)
    (hleast : -9223372036854775808 < e.toInt) :
    if Int.gcd b.toInt m.toInt = 1 then
      ∃ k, intPowMod b e m = .ok k ∧ IsRemainder k.toInt m.toInt ∧
        k.toInt * b.toInt ^ (-e.toInt).toNat ≡ 1 [ZMOD m.toInt]
    else intPowMod b e m = .error (.value .notInvertible) := by
  have he' := lt_zero_iff.1 he
  have hnegated : InRange (-e.toInt) := by
    unfold InRange
    omega
  obtain ⟨residue, hresidue, -, hmod⟩ := floorMod_spec b hm
  have hpower := residuePower_of_neg residue.toInt hm he
  rw [gcd_eq_of_modEq hmod, uncheckedInt_of_inRange _ hnegated,
    checkedInt_of_inRange hnegated] at hpower
  split_ifs at hpower ⊢
  · obtain ⟨i, hpower, hsmall, himod⟩ := hpower
    obtain ⟨k, hk, hremainder, hkmod⟩ := intPowMod_of_residuePower hm hresidue hpower hsmall
    refine ⟨k, hk, hremainder, ?_⟩
    rw [toInt_ofInt_of_inRange hnegated] at hkmod
    calc k.toInt * b.toInt ^ (-e.toInt).toNat
      _ ≡ i ^ (-e.toInt).toNat * residue.toInt ^ (-e.toInt).toNat [ZMOD m.toInt] :=
        hkmod.mul (hmod.symm.pow _)
      _ = (i * residue.toInt) ^ (-e.toInt).toNat := (mul_pow _ _ _).symm
      _ ≡ 1 ^ (-e.toInt).toNat [ZMOD m.toInt] := himod.pow _
      _ = 1 := one_pow _
  · exact intPowMod_of_error hm hresidue hpower

/-- The least exponent there is cannot be negated. Where an inverse has been found, the program
panics. -/
theorem intPowMod_of_least (b : Int64) (hm : m ≠ 0) (he : e.toInt = -9223372036854775808) :
    intPowMod b e m =
      if Int.gcd b.toInt m.toInt = 1 then .error (.panic .negation)
      else .error (.value .notInvertible) := by
  have hneg : e < 0 := lt_zero_iff.2 (by omega)
  have hnegated : ¬InRange (-e.toInt) := by
    unfold InRange
    omega
  obtain ⟨residue, hresidue, -, hmod⟩ := floorMod_spec b hm
  have hpower := residuePower_of_neg residue.toInt hm hneg
  rw [gcd_eq_of_modEq hmod, uncheckedInt, if_neg hnegated] at hpower
  split_ifs at hpower ⊢
  · obtain ⟨i, hpower, -⟩ := hpower
    exact intPowMod_of_error hm hresidue hpower
  · exact intPowMod_of_error hm hresidue hpower

/-- What `pow` does with three integers. -/
theorem run_pow (call : Caller) (r : RealmId) (b e m : Int64) (s : Store) :
    Builtin.pow.run call r (.ofList [.int b, .int e, .int m]) s =
      match intPowMod b e m with
      | .ok k => .ok (.int k) s
      | .error cause => .error cause s := by
  have hlift : Builtin.pow.run call r (.ofList [.int b, .int e, .int m]) s =
      (liftM ((intPowMod b e m).map Value.int) : Eval Value) s := rfl
  rw [hlift]
  cases intPowMod b e m <;> rfl

theorem modEq_of_mul_modEq_one {n k p m : Int} (hn : n * p ≡ 1 [ZMOD m])
    (hk : k * p ≡ 1 [ZMOD m]) : n ≡ k [ZMOD m] :=
  calc n
    _ = n * 1 := (mul_one n).symm
    _ ≡ n * (k * p) [ZMOD m] := hk.symm.mul_left n
    _ = k * (n * p) := by ring
    _ ≡ k * 1 [ZMOD m] := hn.mul_left k
    _ = k := mul_one k

/-- The function `pow` with a modulus gives the power among the remainders of the modulus, and
with a negative exponent the inverse of a power, or else an error if there is none. A step
that overflowed would be a panic, so in none of these cases has one. -/
theorem run_pow_residue (call : Caller) (r : RealmId) (b : Int64) (s : Store) (hm : m ≠ 0)
    (hleast : -9223372036854775808 < e.toInt) :
    if e < 0 then
      if Int.gcd b.toInt m.toInt = 1 then
        ∃ k : Int64, Builtin.pow.run call r (.ofList [.int b, .int e, .int m]) s = .ok (.int k) s ∧
          ∀ n : Int, n = k.toInt ↔
            IsRemainder n m.toInt ∧ n * b.toInt ^ (-e.toInt).toNat ≡ 1 [ZMOD m.toInt]
      else
        Builtin.pow.run call r (.ofList [.int b, .int e, .int m]) s =
          .error (.value .notInvertible) s
    else
      ∃ k : Int64, Builtin.pow.run call r (.ofList [.int b, .int e, .int m]) s = .ok (.int k) s ∧
        ∀ n : Int, n = k.toInt ↔
          IsRemainder n m.toInt ∧ n ≡ b.toInt ^ e.toInt.toNat [ZMOD m.toInt] := by
  rw [run_pow]
  split_ifs with hneg hgcd
  · have hspec := intPowMod_of_neg b hm hneg hleast
    rw [if_pos hgcd] at hspec
    obtain ⟨k, hk, hremainder, hmod⟩ := hspec
    rw [hk]
    refine ⟨k, rfl, fun n => ⟨?_, fun ⟨hn, hnmod⟩ => ?_⟩⟩
    · rintro rfl
      exact ⟨hremainder, hmod⟩
    · exact hn.eq_of_modEq hremainder (modEq_of_mul_modEq_one hnmod hmod)
  · have hspec := intPowMod_of_neg b hm hneg hleast
    rw [if_neg hgcd] at hspec
    rw [hspec]
  · obtain ⟨k, hk, hremainder, hmod⟩ := intPowMod_of_nonneg b hm hneg
    rw [hk]
    refine ⟨k, rfl, fun n => ⟨?_, fun ⟨hn, hnmod⟩ => ?_⟩⟩
    · rintro rfl
      exact ⟨hremainder, hmod⟩
    · exact hn.eq_of_modEq hremainder (hnmod.trans hmod.symm)

/-- Of the inverses of 3 modulo -7, the one between -7 and 0 is -2. -/
theorem run_pow_residue_inverse :
    Builtin.pow.run (fun f _ => return f) 0 (.ofList [.int 3, .int (-1), .int (-7)]) Store.empty =
      .ok (.int (-2)) Store.empty := by
  have hspec := run_pow_residue (m := -7) (e := -1) (fun f _ => return f) 0 3 Store.empty
    (by decide) (by decide)
  rw [if_pos (by decide), if_pos (by decide)] at hspec
  obtain ⟨k, hk, hn⟩ := hspec
  have hvalue : -2 = k.toInt := (hn (-2)).2 ⟨.inr (by decide), by decide⟩
  rw [hk, ← Int64.ofInt_toInt k, ← hvalue]
  rfl

end ExprLang
