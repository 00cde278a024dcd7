import ExprLang.Decimal.Binary
import Mathlib.Algebra.Order.Field.Basic
import Mathlib.Algebra.Order.Ring.Abs
import Mathlib.Data.Rat.Cast.Order
import Mathlib.Tactic.FieldSimp
import Mathlib.Tactic.GCongr
import Mathlib.Tactic.Linarith
import Mathlib.Tactic.Positivity
import Mathlib.Tactic.Ring

/-!
# The nearest multiple

`IsNearest unit x y` says what rounding half to even is: `y` is the multiple of `unit` that is
nearest to `x`, and an even one if there are two. There is only one such multiple
(`IsNearest.unique`). Dividing with `divHalfEven` finds it (`isNearest_divHalfEven`), so the integer
next to a double is the nearest one (`FloatParts.isNearest_nearestInt`).
-/

namespace ExprLang

/-- Whether `y` is the multiple of `unit` that is nearest to `x`, an even one if `x` lies half way
between two. -/
def IsNearest (unit x y : ℚ) : Prop :=
  ∃ k : ℤ, y = k * unit ∧ 2 * |x - y| ≤ unit ∧ (2 * |x - y| = unit → Even k)

variable {unit x y y' : ℚ}

/-- Rounding is the same on both sides of zero. -/
theorem IsNearest.neg (h : IsNearest unit x y) : IsNearest unit (-x) (-y) := by
  obtain ⟨k, rfl, hle, heven⟩ := h
  have habs : |-x - -(k * unit)| = |x - k * unit| := by
    rw [← abs_neg]
    ring_nf
  refine ⟨-k, by push_cast; ring, by rwa [habs], fun htie => ?_⟩
  rw [habs] at htie
  exact (heven htie).neg

/-- Rounding in units is rounding to multiples of the unit. -/
theorem IsNearest.scale {scale : ℚ} (hscale : 0 < scale) (h : IsNearest unit x y) :
    IsNearest (unit * scale) (x * scale) (y * scale) := by
  obtain ⟨k, rfl, hle, heven⟩ := h
  have habs : 2 * |x * scale - k * unit * scale| = 2 * |x - k * unit| * scale := by
    rw [← sub_mul, abs_mul, abs_of_pos hscale, mul_assoc]
  refine ⟨k, by ring, ?_, fun htie => heven ?_⟩
  · rw [habs]
    gcongr
  · rw [habs] at htie
    exact mul_right_cancel₀ hscale.ne' htie

/-- Of two multiples that are both nearest, neither is less: they would be neighbours with `x` half
way between them, and one of them is odd. -/
theorem not_lt_of_nearest {k l : ℤ} (hunit : 0 < unit) (hk : 2 * |x - k * unit| ≤ unit)
    (hl : 2 * |x - l * unit| ≤ unit) (hevenK : 2 * |x - k * unit| = unit → Even k)
    (hevenL : 2 * |x - l * unit| = unit → Even l) : ¬k < l := by
  intro hlt
  have habove : 2 * (x - k * unit) ≤ unit := (by gcongr; exact le_abs_self _ : _ ≤ _).trans hk
  have hbelow : 2 * -(x - l * unit) ≤ unit := (by gcongr; exact neg_le_abs _ : _ ≤ _).trans hl
  have hnext : (k + 1 : ℚ) ≤ l := by exact_mod_cast hlt
  have hgap : (k + 1) * unit ≤ l * unit := by gcongr
  have hhalf : 2 * (x - k * unit) = unit := by linarith
  have hsame : l * unit = (k + 1) * unit := by linarith
  obtain rfl : l = k + 1 := by
    have := mul_right_cancel₀ hunit.ne' hsame
    exact_mod_cast this
  have hk : 2 * |x - k * unit| = unit := by rw [abs_of_nonneg (by linarith), hhalf]
  have hl : 2 * |x - (k + 1 : ℤ) * unit| = unit := by
    rw [hsame, abs_of_nonpos (by linarith)]
    linarith
  exact Int.not_even_iff_odd.2 (hevenK hk).add_one (hevenL hl)

/-- There is only one nearest multiple. -/
theorem IsNearest.unique (hunit : 0 < unit) (h : IsNearest unit x y) (h' : IsNearest unit x y') :
    y = y' := by
  obtain ⟨k, rfl, hk, hevenK⟩ := h
  obtain ⟨l, rfl, hl, hevenL⟩ := h'
  have hkl := not_lt_of_nearest hunit hk hl hevenK hevenL
  have hlk := not_lt_of_nearest hunit hl hk hevenL hevenK
  rw [le_antisymm (not_lt.1 hlk) (not_lt.1 hkl)]

/-- Only a quotient half way between two integers is half a unit away from what it is rounded to. -/
theorem mod_of_divHalfEven_far {n d : ℕ} (hd : 0 < d)
    (h : 2 * n = 2 * (divHalfEven n d * d) + d ∨ 2 * (divHalfEven n d * d) = 2 * n + d) :
    2 * (n % d) = d := by
  have hn := Nat.div_add_mod n d
  have hr := Nat.mod_lt n hd
  have hmul : d * (n / d) = n / d * d := Nat.mul_comm _ _
  simp only [divHalfEven] at h
  split at h
  · omega
  split at h
  · rw [Nat.add_mul] at h
    omega
  · omega

/-- Dividing half to even gives the nearest integer to a quotient. -/
theorem isNearest_divHalfEven (n : ℕ) {d : ℕ} (hd : 0 < d) :
    IsNearest 1 (n / d) (divHalfEven n d) := by
  have hpos : (0 : ℚ) < d := by exact_mod_cast hd
  obtain ⟨e, he⟩ : ∃ e : ℤ, e = 2 * n - 2 * (divHalfEven n d * d) := ⟨_, rfl⟩
  have hdist : 2 * |(n / d : ℚ) - divHalfEven n d| * d = (|e| : ℤ) := by
    have hsplit : (e : ℚ) = 2 * ((n / d : ℚ) - divHalfEven n d) * d := by
      rw [he]
      push_cast
      field_simp
    rw [Int.cast_abs, hsplit, abs_mul, abs_mul, abs_of_pos hpos, abs_two]
  obtain ⟨hbelow, habove⟩ := divHalfEven_near n hd
  refine ⟨divHalfEven n d, by simp, ?_, fun htie => ?_⟩
  · rw [← mul_le_mul_iff_of_pos_right hpos, hdist, one_mul]
    have hle : |e| ≤ d := abs_le.2 ⟨by omega, by omega⟩
    exact_mod_cast hle
  · rw [htie, one_mul] at hdist
    have hfar : (d : ℤ) = |e| := by exact_mod_cast hdist
    have htwo := abs_choice e
    exact_mod_cast Nat.even_iff.2 (divHalfEven_even (mod_of_divHalfEven_far hd (by omega)))

/-- An integer is the integer nearest to itself. -/
theorem isNearest_intCast (n : ℤ) : IsNearest 1 n n :=
  ⟨n, by simp, by simp, by simp⟩

/-! ## Doubles -/

namespace FloatParts

variable (p : FloatParts)

/-- The magnitude of the number that parts stand for. -/
def magnitude : ℚ :=
  p.mantissa * 2 ^ p.exponent

/-- The number that parts stand for. -/
def value : ℚ :=
  if p.negative then -p.magnitude else p.magnitude

theorem magnitude_nonneg : 0 ≤ p.magnitude :=
  mul_nonneg (Nat.cast_nonneg _) (zpow_nonneg (by norm_num) _)

variable {p}

theorem magnitude_of_nonneg (h : 0 ≤ p.exponent) :
    p.magnitude = (p.mantissa * Nat.pow 2 p.exponent.toNat : ℕ) := by
  have hpow : (2 : ℚ) ^ p.exponent = (2 ^ p.exponent.toNat : ℕ) := by
    rw [← Int.toNat_of_nonneg h, zpow_natCast, Int.toNat_natCast]
    push_cast
    rfl
  rw [magnitude, hpow, ← Nat.cast_mul]
  rfl

theorem magnitude_of_neg (h : p.exponent < 0) :
    p.magnitude = p.mantissa / (Nat.pow 2 (-p.exponent).toNat : ℕ) := by
  have hpow : (2 : ℚ) ^ p.exponent = ((2 ^ (-p.exponent).toNat : ℕ) : ℚ)⁻¹ := by
    rw [← inv_inv ((2 : ℚ) ^ p.exponent), ← zpow_neg,
      ← Int.toNat_of_nonneg (show 0 ≤ -p.exponent by omega), zpow_natCast, Int.toNat_natCast]
    push_cast
    rfl
  rw [magnitude, hpow]
  rfl

/-- The magnitude rounded to an integer. -/
theorem isNearest_magnitude (p : FloatParts) : IsNearest 1 p.magnitude
    (if 0 ≤ p.exponent then p.mantissa * Nat.pow 2 p.exponent.toNat
      else divHalfEven p.mantissa (Nat.pow 2 (-p.exponent).toNat) : ℕ) := by
  split
  · next h =>
    rw [magnitude_of_nonneg h]
    exact isNearest_intCast _
  · next h =>
    rw [magnitude_of_neg (not_le.1 h)]
    exact isNearest_divHalfEven _ (Nat.pow_pos (by decide))

/-- The nearest integer to a double, as it is computed. -/
theorem isNearest_nearestInt (p : FloatParts) : IsNearest 1 p.value p.nearestInt := by
  have hnear := p.isNearest_magnitude
  unfold value nearestInt signed
  split
  · exact_mod_cast hnear.neg
  · exact_mod_cast hnear

end FloatParts

end ExprLang
