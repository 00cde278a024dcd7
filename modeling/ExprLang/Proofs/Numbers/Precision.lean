import ExprLang.Proofs.Numbers.Doubles
import ExprLang.Proofs.Numbers.Nearest

/-!
# The precision of doubles

A double has 53 bits. `IsRounded x y` says that `y` is the positive number `x` rounded to as many,
half to even. The error is no more than a part in 2 ^ 53 (`IsRounded.error`), and there is none if
`x` has no more bits (`IsRounded.eq_of_multiple`). The nearest double to a number is what it is
rounded to (`nearestFloat_rounds`), and so is a quotient of doubles (`div_rounds`), unless it leaves
the exponents that numbers of 53 bits have.

Both take a mantissa in units of its last bit. Rounding may carry it to 54 bits, and then the unit
is twice as large (`FloatParts.carried`). A quotient is divided with 53 or 54 bits and a note of
what is left over; with it, the quotient and its half are rounded as by `divHalfEven`
(`roundedMantissa_fraction`, `roundedMantissa_shiftRightOne`).
-/

namespace ExprLang

variable {x y : ℚ} {unit : ℤ}

/-- Whether `y` is the positive number `x` rounded to 53 bits, half to even. -/
def IsRounded (x y : ℚ) : Prop :=
  ∃ unit : ℤ, 2 ^ (unit + 52) ≤ x ∧ x < 2 ^ (unit + 53) ∧ IsNearest (2 ^ unit) x y

/-- Rounding to 53 bits is off by no more than a part in 2 ^ 53. -/
theorem IsRounded.error (h : IsRounded x y) : |x - y| ≤ x / 2 ^ 53 := by
  obtain ⟨unit, hlow, -, k, -, hnear, -⟩ := h
  have hunit : (2 : ℚ) ^ (unit + 52) = 2 ^ unit * 2 ^ 52 := zpow_add₀ two_ne_zero _ _
  rw [hunit] at hlow
  rw [le_div_iff₀ (by positivity)]
  linarith

/-- A number that has no more than 53 bits is not rounded. -/
theorem IsRounded.eq_of_multiple (h : IsRounded x y) {c w : ℤ} (hx : x = c * 2 ^ w)
    (hlt : x < 2 ^ (w + 53)) : y = x := by
  obtain ⟨unit, hlow, -, hnear⟩ := h
  have hle : unit ≤ w := by
    have hpow : (2 : ℚ) ^ (unit + 52) < 2 ^ (w + 53) := hlow.trans_lt hlt
    have := (zpow_lt_zpow_iff_right₀ (by norm_num)).1 hpow
    omega
  obtain ⟨n, rfl⟩ := Int.le.dest hle
  have hmultiple : x = ((c * 2 ^ n : ℤ) : ℚ) * 2 ^ unit := by
    rw [hx, zpow_add₀ two_ne_zero, zpow_natCast]
    push_cast
    ring
  have hself : IsNearest (2 ^ unit) x x := by
    refine ⟨_, hmultiple, by simp [zpow_nonneg], fun h => ?_⟩
    rw [sub_self, abs_zero, mul_zero] at h
    exact absurd h.symm (zpow_ne_zero _ two_ne_zero)
  exact hnear.unique (zpow_pos two_pos _) hself

/-! ## Carrying -/

namespace FloatParts

/-- Whether a mantissa has all of its 53 bits. -/
def IsNormal (p : FloatParts) : Prop :=
  2 ^ 52 ≤ p.mantissa ∧ p.mantissa < 2 ^ 53

/-- Parts with 53 bits that stand for a number rounded to them, in the given unit or the next. -/
structure Rounds (p : FloatParts) (x : ℚ) (unit : ℤ) : Prop where
  normal : p.IsNormal
  exponent_low : unit ≤ p.exponent
  exponent_high : p.exponent ≤ unit + 1
  rounded : IsRounded x p.magnitude

/-- A rounded mantissa in units, of twice the size if rounding has carried it to 54 bits. -/
def carried (negative : Bool) (r : ℕ) (unit : ℤ) : FloatParts :=
  if r < 2 ^ 53 then ⟨negative, r, unit⟩ else ⟨negative, 2 ^ 52, unit + 1⟩

@[simp] theorem carried_negative (negative : Bool) (r : ℕ) (unit : ℤ) :
    (carried negative r unit).negative = negative := by
  unfold carried
  split <;> rfl

theorem carried_normal (negative : Bool) {r : ℕ} (unit : ℤ) (hlow : 2 ^ 52 ≤ r) :
    (carried negative r unit).IsNormal := by
  unfold carried IsNormal
  split <;> dsimp only <;> omega

theorem carried_magnitude (negative : Bool) {r : ℕ} (unit : ℤ) (hhigh : r ≤ 2 ^ 53) :
    (carried negative r unit).magnitude = r * 2 ^ unit := by
  unfold carried magnitude
  split
  · rfl
  · obtain rfl : r = 2 ^ 53 := by omega
    rw [zpow_add_one₀ two_ne_zero]
    push_cast
    ring

end FloatParts

/-- The mantissa that 53 bits are rounded to has 53 bits, or is the next power of two. -/
theorem mantissa_of_nearest {r : ℕ} (hlow : 2 ^ (unit + 52) ≤ x) (hhigh : x < 2 ^ (unit + 53))
    (h : IsNearest 1 (x / 2 ^ unit) r) : 2 ^ 52 ≤ r ∧ r ≤ 2 ^ 53 := by
  have hunit : (0 : ℚ) < 2 ^ unit := zpow_pos two_pos _
  rw [zpow_add₀ two_ne_zero, mul_comm] at hlow hhigh
  replace hlow := (le_div_iff₀ hunit).2 hlow
  replace hhigh := (div_lt_iff₀ hunit).2 hhigh
  obtain ⟨k, -, hle, -⟩ := h
  have habove := neg_le_abs (x / 2 ^ unit - r)
  have hbelow := le_abs_self (x / 2 ^ unit - r)
  constructor
  · by_contra hlt
    have hlt : (r : ℚ) + 1 ≤ 2 ^ 52 := by exact_mod_cast not_le.1 hlt
    linarith
  · by_contra hlt
    have hlt : (2 : ℚ) ^ 53 + 1 ≤ r := by exact_mod_cast not_le.1 hlt
    linarith

theorem carried_rounds (negative : Bool) {r : ℕ} (hlow : 2 ^ (unit + 52) ≤ x)
    (hhigh : x < 2 ^ (unit + 53)) (h : IsNearest 1 (x / 2 ^ unit) r) :
    (FloatParts.carried negative r unit).Rounds x unit := by
  have hunit : (0 : ℚ) < 2 ^ unit := zpow_pos two_pos _
  have hscaled := h.scale hunit
  rw [one_mul, div_mul_cancel₀ _ hunit.ne'] at hscaled
  obtain ⟨hrlow, hrhigh⟩ := mantissa_of_nearest hlow hhigh h
  refine ⟨FloatParts.carried_normal negative unit hrlow, ?_, ?_, unit, hlow, hhigh, ?_⟩
  · unfold FloatParts.carried
    split <;> dsimp only <;> omega
  · unfold FloatParts.carried
    split <;> dsimp only <;> omega
  · rwa [FloatParts.carried_magnitude negative unit hrhigh]

/-! ## The nearest double -/

theorem natPow_mul_zpow (n : ℕ) (e : ℤ) : ((2 ^ n : ℕ) : ℚ) * 2 ^ e = 2 ^ (n + e) := by
  rw [zpow_add₀ two_ne_zero, zpow_natCast]
  push_cast
  rfl

/-- The word of a rounded mantissa is the sum of its unit and the mantissa: what is carried counts
the exponent up. -/
theorem floatParts?_carried (negative : Bool) {field r : ℕ} (hfield : field ≤ 2044)
    (hlow : 2 ^ 52 ≤ r) (hhigh : r ≤ 2 ^ 53) :
    floatParts? ⟨UInt64.ofNat ((if negative then Nat.pow 2 63 else 0) +
      min (field * Nat.pow 2 52 + r) (2047 * Nat.pow 2 52))⟩ =
      some (.carried negative r (field - 1074)) := by
  have hmin : min (field * Nat.pow 2 52 + r) (2047 * Nat.pow 2 52) = field * Nat.pow 2 52 + r := by
    refine min_eq_left ?_
    show field * 2 ^ 52 + r ≤ 2047 * 2 ^ 52
    omega
  rw [hmin, FloatParts.carried]
  by_cases hr : r < 2 ^ 53
  · have hsplit : field * Nat.pow 2 52 + r = (field + 1) * Nat.pow 2 52 + (r - 2 ^ 52) := by
      show field * 2 ^ 52 + r = (field + 1) * 2 ^ 52 + (r - 2 ^ 52)
      omega
    rw [hsplit, floatParts?_fields negative (by omega) (by omega) (by omega), if_pos hr,
      Nat.add_sub_cancel' hlow]
    congr 2
    push_cast
    omega
  · have hsplit : field * Nat.pow 2 52 + r = (field + 2) * Nat.pow 2 52 + 0 := by
      show field * 2 ^ 52 + r = (field + 2) * 2 ^ 52 + 0
      omega
    rw [hsplit, floatParts?_fields negative (by omega) (by omega) (by omega), if_neg hr]
    congr 2
    push_cast
    omega

/-- The nearest double is the number rounded to 53 bits, unless it is too small or too large for
that. -/
theorem nearestFloat_rounds {p : FloatParts} (hpos : 0 < p.mantissa)
    (hunit : unit = p.exponent + p.mantissa.log2 - 52) (hlow : -1074 ≤ unit) (hhigh : unit ≤ 970) :
    ∃ r, floatParts? (nearestFloat p) = some r ∧ r.negative = p.negative ∧
      r.Rounds p.magnitude unit := by
  obtain ⟨hlogLow, hlogHigh⟩ := (Nat.log2_eq_iff hpos.ne').1 rfl
  have hexponent : (0 : ℚ) < 2 ^ p.exponent := zpow_pos two_pos _
  have hbelow : 2 ^ (unit + 52) ≤ p.magnitude := by
    rw [show unit + 52 = p.mantissa.log2 + p.exponent by omega, ← natPow_mul_zpow]
    exact mul_le_mul_of_nonneg_right (by exact_mod_cast hlogLow) hexponent.le
  have habove : p.magnitude < 2 ^ (unit + 53) := by
    rw [show unit + 53 = (p.mantissa.log2 + 1 : ℕ) + p.exponent by omega, ← natPow_mul_zpow]
    exact mul_lt_mul_of_pos_right (by exact_mod_cast hlogHigh) hexponent
  have hnear := FloatParts.isNearest_magnitude ⟨p.negative, p.mantissa, p.exponent - unit⟩
  have hunits : FloatParts.magnitude ⟨p.negative, p.mantissa, p.exponent - unit⟩ =
      p.magnitude / 2 ^ unit := by
    unfold FloatParts.magnitude
    rw [zpow_sub₀ two_ne_zero, mul_div_assoc]
  rw [hunits] at hnear
  obtain ⟨hrlow, hrhigh⟩ := mantissa_of_nearest hbelow habove hnear
  have hfield : ((unit + 1074).toNat : ℤ) - 1074 = unit := by omega
  have hmax : max (p.exponent + p.mantissa.log2 - 52) (-1074) = unit := by omega
  refine ⟨_, ?_, ?_, carried_rounds p.negative hbelow habove hnear⟩
  · unfold nearestFloat
    dsimp only
    rw [if_neg hpos.ne', hmax, floatParts?_carried p.negative (by omega) hrlow hrhigh, hfield]
  · exact FloatParts.carried_negative _ _ _

/-! ## Quotients -/

section

open Float.Model Float.Model.UnpackedFloat

theorem roundedMantissa_fraction (n : ℕ) {d : ℕ} (hd : 0 < d) :
    (ExtendedMantissa.ofMantissaAndAccuracy (n / d)
      (accuracyOfFraction (n % d) d)).roundedMantissa = divHalfEven n d := by
  unfold accuracyOfFraction divHalfEven
  dsimp only
  split
  · next h =>
    rw [h, if_pos (by omega)]
    rfl
  · rcases Nat.lt_trichotomy (2 * (n % d)) d with h | h | h
    · rw [compare_lt_iff_lt.2 h, if_pos h]
      rfl
    · rw [compare_eq_iff_eq.2 h, if_neg h.not_lt, if_neg h.not_gt]
      rfl
    · rw [compare_gt_iff_gt.2 h, if_neg h.not_gt, if_pos h]
      rfl

theorem shiftRightOne_fraction (m r d : ℕ) :
    (ExtendedMantissa.ofMantissaAndAccuracy m (accuracyOfFraction r d)).shiftRightOne =
      ⟨m / 2, m % 2 != 0, r != 0⟩ := by
  unfold accuracyOfFraction
  split
  · next h =>
    rw [h]
    rfl
  · next h =>
    rw [bne_iff_ne.2 h]
    cases compare (2 * r) d <;> rfl

/-- A quotient that is rounded one bit further to the left is a quotient by twice as much. -/
theorem roundedMantissa_shiftRightOne (n : ℕ) {d : ℕ} (hd : 0 < d) :
    (ExtendedMantissa.ofMantissaAndAccuracy (n / d)
      (accuracyOfFraction (n % d) d)).shiftRightOne.roundedMantissa = divHalfEven n (d * 2) := by
  have hr := Nat.mod_lt n hd
  have hmod : n % (d * 2) = n % d + d * (n / d % 2) := Nat.mod_mul
  have hdiv : n / (d * 2) = n / d / 2 := (Nat.div_div_eq_div_mul n d 2).symm
  rw [shiftRightOne_fraction]
  unfold divHalfEven
  rw [hmod, hdiv]
  dsimp only
  rcases Nat.mod_two_eq_zero_or_one (n / d) with heven | hodd
  · rw [heven, if_pos (by omega)]
    cases n % d != 0 <;> rfl
  · rw [hodd, if_neg (by omega)]
    rcases Nat.eq_zero_or_pos (n % d) with hzero | hpos
    · rw [hzero, if_neg (by omega)]
      rfl
    · rw [bne_iff_ne.2 hpos.ne', if_pos (by omega)]
      rfl

/-- A mantissa of at least 53 bits is shifted to 53 bits. -/
theorem shiftToTargetExponent_eq {m l : ℕ} {e : ℤ} (accuracy : Accuracy) (hlog : m.log2 = 52 + l)
    (he : -1074 ≤ e) : shiftToTargetExponent .binary64 m e accuracy =
      (ExtendedMantissa.ofMantissaAndAccuracy m accuracy >>> l, e + l) := by
  have htarget : Format.binary64.targetExponent (totalExponent m e) = e + l := by
    unfold totalExponent
    rw [hlog]
    show max (((52 + l : ℕ) : ℤ) + 1 + e - 53) (-1074) = _
    omega
  unfold shiftToTargetExponent shiftToExponent
  dsimp only
  rw [htarget, add_sub_cancel_left, Int.toNat_natCast]

/-- What rounding has carried to 54 bits is shifted once more. -/
theorem shiftToTargetExponent_carried (negative : Bool) {r : ℕ} {e : ℤ} (hlow : 2 ^ 52 ≤ r)
    (hhigh : r ≤ 2 ^ 53) (he : -1074 ≤ e) :
    (shiftToTargetExponent .binary64 r e .exact).1.mantissa =
        (FloatParts.carried negative r e).mantissa ∧
      (shiftToTargetExponent .binary64 r e .exact).2 =
        (FloatParts.carried negative r e).exponent := by
  unfold FloatParts.carried
  by_cases hr : r < 2 ^ 53
  · have hlog : r.log2 = 52 + 0 := (Nat.log2_eq_iff (by omega)).2 ⟨hlow, hr⟩
    rw [shiftToTargetExponent_eq .exact hlog he, if_pos hr]
    exact ⟨rfl, add_zero e⟩
  · obtain rfl : r = 2 ^ 53 := by omega
    have hlog : (2 ^ 53).log2 = 52 + 1 := Nat.log2_two_pow
    rw [shiftToTargetExponent_eq .exact hlog he, if_neg hr]
    exact ⟨(by norm_num : 2 ^ 53 / 2 = 2 ^ 52), rfl⟩

/-- The mantissa that is rounded to 53 bits is what the result has, unless it is carried. -/
theorem roundWithAccuracy_eq (s : Sign) {m l r : ℕ} {e : ℤ} {accuracy : Accuracy}
    (hlog : m.log2 = 52 + l) (he : -1074 ≤ e)
    (hr : (ExtendedMantissa.ofMantissaAndAccuracy m accuracy >>> l).roundedMantissa = r)
    (hlow : 2 ^ 52 ≤ r) (hhigh : r ≤ 2 ^ 53) :
    ∃ h, roundWithAccuracy .binary64 s m e accuracy =
      .finite s (FloatParts.carried (s == .negative) r (e + l)).mantissa
        (FloatParts.carried (s == .negative) r (e + l)).exponent h := by
  obtain ⟨hmantissa, hexponent⟩ := shiftToTargetExponent_carried (s == .negative) hlow hhigh
    (show -1074 ≤ e + l by omega)
  have hpos : 0 < (FloatParts.carried (s == .negative) r (e + l)).mantissa :=
    (Nat.two_pow_pos 52).trans_le (FloatParts.carried_normal _ _ hlow).1
  refine ⟨hpos, ?_⟩
  unfold roundWithAccuracy
  rw [shiftToTargetExponent_eq accuracy hlog he]
  dsimp only
  simp only [hr, hmantissa, hexponent]
  rw [dif_neg hpos.ne']

/-- A quotient of 53 or 54 bits, with what is left over, is rounded to 53 bits. -/
theorem roundWithAccuracy_rounds (s : Sign) {n d : ℕ} {e : ℤ} (hd : 0 < d) (hlow : 2 ^ 52 ≤ n / d)
    (hhigh : n / d < 2 ^ 54) (he : -1074 ≤ e) :
    ∃ (r : FloatParts) (unit : ℤ) (h : _), e ≤ unit ∧ unit ≤ e + 1 ∧
      r.negative = (s == .negative) ∧ r.Rounds (n / d * 2 ^ e) unit ∧
      roundWithAccuracy .binary64 s (n / d) e (accuracyOfFraction (n % d) d) =
        .finite s r.mantissa r.exponent h := by
  obtain ⟨l, hlog⟩ := Nat.le.dest ((Nat.le_log2 (by omega)).2 hlow)
  have hl : 52 + l < 54 := hlog ▸ (Nat.log2_lt (by omega)).2 hhigh
  obtain ⟨hbits, hbits'⟩ := (Nat.log2_eq_iff (by omega)).1 hlog.symm
  rw [Nat.le_div_iff_mul_le hd] at hbits
  rw [Nat.div_lt_iff_lt_mul hd] at hbits'
  have hdpos : (0 : ℚ) < d := by exact_mod_cast hd
  have hunit : (0 : ℚ) < 2 ^ e := zpow_pos two_pos _
  have hbelow : (2 : ℚ) ^ (e + l + 52) ≤ n / d * 2 ^ e := by
    rw [show e + l + 52 = (52 + l : ℕ) + e by omega, ← natPow_mul_zpow]
    gcongr
    rw [le_div_iff₀ hdpos]
    exact_mod_cast hbits
  have habove : n / d * 2 ^ e < (2 : ℚ) ^ (e + l + 53) := by
    rw [show e + l + 53 = (52 + l + 1 : ℕ) + e by omega, ← natPow_mul_zpow]
    gcongr
    rw [div_lt_iff₀ hdpos]
    exact_mod_cast hbits'
  have hnear : IsNearest 1 (n / d * 2 ^ e / 2 ^ (e + l)) (divHalfEven n (d * 2 ^ l)) := by
    have hquotient : (n / d * 2 ^ e / 2 ^ (e + l) : ℚ) = n / (d * 2 ^ l : ℕ) := by
      rw [zpow_add₀ two_ne_zero, zpow_natCast]
      push_cast
      field_simp
    rw [hquotient]
    exact isNearest_divHalfEven n (Nat.mul_pos hd (Nat.two_pow_pos l))
  have hrounded : (ExtendedMantissa.ofMantissaAndAccuracy (n / d)
      (accuracyOfFraction (n % d) d) >>> l).roundedMantissa = divHalfEven n (d * 2 ^ l) := by
    obtain rfl | rfl : l = 0 ∨ l = 1 := by omega
    · rw [pow_zero, Nat.mul_one]
      exact roundedMantissa_fraction n hd
    · exact roundedMantissa_shiftRightOne n hd
  obtain ⟨hrlow, hrhigh⟩ := mantissa_of_nearest hbelow habove hnear
  obtain ⟨h, hround⟩ := roundWithAccuracy_eq s hlog.symm he hrounded hrlow hrhigh
  exact ⟨_, e + l, h, by omega, by omega, FloatParts.carried_negative _ _ _,
    carried_rounds _ hbelow habove hnear, hround⟩

/-- Both mantissas having 53 bits, the quotient is taken with 53 more. -/
theorem div_finite {s₁ s₂ : Sign} {m₁ m₂ : ℕ} {e₁ e₂ : ℤ} (h₁ : 0 < m₁) (h₂ : 0 < m₂)
    (hlog₁ : m₁.log2 = 52) (hlog₂ : m₂.log2 = 52) (he : -1074 ≤ e₁ - e₂ - 53) :
    UnpackedFloat.div .binary64 (.finite s₁ m₁ e₁ h₁) (.finite s₂ m₂ e₂ h₂) =
      roundWithAccuracy .binary64 (s₁ / s₂) (m₁ * 2 ^ 53 / m₂) (e₁ - e₂ - 53)
        (accuracyOfFraction (m₁ * 2 ^ 53 % m₂) m₂) := by
  have htarget : min (e₁ - e₂) (Format.binary64.targetExponent
      (totalExponent m₁ e₁ - totalExponent m₂ e₂)) = e₁ - e₂ - 53 := by
    unfold totalExponent
    rw [hlog₁, hlog₂]
    show min (e₁ - e₂) (max (((52 : ℕ) : ℤ) + 1 + e₁ - (((52 : ℕ) : ℤ) + 1 + e₂) - 53) (-1074)) = _
    omega
  unfold UnpackedFloat.div divCore
  dsimp only
  rw [htarget, sub_sub_cancel, Nat.shiftLeft_eq]
  rfl

/-- A quotient of doubles is the quotient of their numbers rounded to 53 bits, unless it is too
small or too large for that. -/
theorem div_rounds {x y : Double} {p q : FloatParts} (hx : floatParts? x = some p)
    (hy : floatParts? y = some q) (hp : p.IsNormal) (hq : q.IsNormal)
    (hlow : -1074 ≤ p.exponent - q.exponent - 53) (hhigh : p.exponent - q.exponent - 53 ≤ 969) :
    ∃ r, floatParts? (x / y) = some r ∧ r.negative = (p.negative != q.negative) ∧
      IsRounded (p.magnitude / q.magnitude) r.magnitude := by
  obtain ⟨hplow, hphigh⟩ := hp
  obtain ⟨hqlow, hqhigh⟩ := hq
  obtain ⟨s, hs, hsign, hxs⟩ := unpack_of_floatParts? hx (by omega)
  obtain ⟨t, ht, hsign', hyt⟩ := unpack_of_floatParts? hy (by omega)
  have hlogP : p.mantissa.log2 = 52 := (Nat.log2_eq_iff hs.ne').2 ⟨hplow, hphigh⟩
  have hlogQ : q.mantissa.log2 = 52 := (Nat.log2_eq_iff ht.ne').2 ⟨hqlow, hqhigh⟩
  have hquotientLow : 2 ^ 52 ≤ p.mantissa * 2 ^ 53 / q.mantissa := by
    rw [Nat.le_div_iff_mul_le ht]
    omega
  have hquotientHigh : p.mantissa * 2 ^ 53 / q.mantissa < 2 ^ 54 := by
    rw [Nat.div_lt_iff_lt_mul ht]
    omega
  obtain ⟨r, unit, hpos, hunitLow, hunitHigh, hnegative, hrounds, hround⟩ :=
    roundWithAccuracy_rounds (s / t) ht hquotientLow hquotientHigh hlow
  have hrlow := hrounds.exponent_low
  have hrhigh := hrounds.exponent_high
  have hmagnitude : p.magnitude / q.magnitude =
      (p.mantissa * 2 ^ 53 : ℕ) / q.mantissa * 2 ^ (p.exponent - q.exponent - 53) := by
    unfold FloatParts.magnitude
    rw [zpow_sub₀ two_ne_zero, zpow_sub₀ two_ne_zero]
    push_cast
    field_simp
  refine ⟨r, floatParts?_div (isNaN_of_floatParts? hx) (isNaN_of_floatParts? hy) ?_, ?_, ?_⟩
  · rw [hxs, hyt, div_finite hs ht hlogP hlogQ hlow, hround,
      floatParts?_pack hpos hrounds.normal.1 hrounds.normal.2 (by omega) (by omega), ← hnegative]
  · rw [hnegative, ← hsign, ← hsign']
    cases s <;> cases t <;> rfl
  · rw [hmagnitude]
    exact hrounds.rounded

/-- A quotient of zero is zero. -/
theorem zero_div_parts {y : Double} {q : FloatParts} (hy : floatParts? y = some q)
    (hq : q.mantissa ≠ 0) : ∃ negative, floatParts? (0 / y) = some ⟨negative, 0, -1074⟩ := by
  obtain ⟨s, hpos, hsign, hunpack⟩ := unpack_of_floatParts? hy hq
  have hzero : UnpackedFloat.unpack .binary64 (0 : Double).bits.toBitVec = .zero .positive := by
    have hword : (0 : Double).bits.toBitVec = packedZero .binary64 .positive := by decide
    rw [hword, unpack_packedZero]
  refine ⟨.positive / s == Sign.negative, floatParts?_div (by decide) (isNaN_of_floatParts? hy) ?_⟩
  rw [hzero, hunpack, floatParts?_eq_unpackedParts?]
  show unpackedParts? (UnpackedFloat.unpack .binary64 (packedZero .binary64 (.positive / s))) = _
  rw [unpack_packedZero]
  rfl

end

end ExprLang
