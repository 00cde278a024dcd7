import ExprLang.Proofs.Numbers.Arithmetic
import ExprLang.Proofs.Numbers.Places
import ExprLang.Proofs.Numbers.Precision

/-!
# Rounding integers to tens

An integer is rounded to a power of ten through the quotient, which is a double: first the integer
is rounded to 53 bits, then the quotient is, and the nearest integer to that is taken of the power
(`roundInt_rounds`). So the result is the nearest multiple only if none of this loses anything
(`round_tens`, `not_round_tens`). What is lost is bounded (`error_of_rounded`), and an integer with
no more than 53 bits in front of its zeros loses nothing (`isNearest_of_rounded`): its quotient is a
multiple of one half, which is a double, or lies so far away from those that rounding it crosses
none (`le_sub_of_half_lt`).
-/

namespace ExprLang

variable {k e : ℕ} {a z : ℤ} {q : ℚ}

/-! ## The quotient -/

/-- A quotient above a multiple of one half lies the farther above it the more zeros its numerator
ends with. -/
theorem le_sub_of_half_lt (he : e < k) (ha : 2 ^ e ∣ a) {h : ℤ} (hlt : (h / 2 : ℚ) < a / 10 ^ k) :
    (2 ^ e / 10 ^ k : ℚ) ≤ a / 10 ^ k - h / 2 := by
  have hten : (0 : ℚ) < 10 ^ k := by positivity
  have hpow : (2 : ℤ) ^ (e + 1) ∣ 10 ^ k :=
    (pow_dvd_pow 2 he).trans (pow_dvd_pow_of_dvd (by norm_num) k)
  have hdvd : (2 : ℤ) ^ (e + 1) ∣ 2 * a - h * 10 ^ k := by
    refine dvd_sub ?_ (hpow.mul_left h)
    rw [pow_succ']
    exact mul_dvd_mul_left 2 ha
  have hdiff : (a / 10 ^ k - h / 2 : ℚ) = (2 * a - h * 10 ^ k : ℤ) / (2 * 10 ^ k) := by
    push_cast
    field_simp
  have hpos : 0 < 2 * a - h * 10 ^ k := by
    rw [← sub_pos, hdiff] at hlt
    exact_mod_cast (div_pos_iff_of_pos_right (by positivity)).1 hlt
  have hle : ((2 ^ (e + 1) : ℤ) : ℚ) ≤ (2 * a - h * 10 ^ k : ℤ) := by
    exact_mod_cast Int.le_of_dvd hpos hdvd
  rw [hdiff, div_le_div_iff₀ hten (by positivity)]
  push_cast [pow_succ] at hle ⊢
  nlinarith

/-- A number that is close to a quotient has the same nearest integer, provided that it is the
quotient where that is a multiple of one half. -/
theorem isNearest_of_close (he : e < k) (ha : 2 ^ e ∣ a)
    (hclose : |a / 10 ^ k - q| < 2 ^ e / 10 ^ k)
    (hexact : ∀ h : ℤ, (a / 10 ^ k : ℚ) = h / 2 → q = a / 10 ^ k) (hnear : IsNearest 1 q z) :
    IsNearest 1 (a / 10 ^ k) z := by
  obtain ⟨n, hn, hle, heven⟩ := hnear
  obtain rfl : z = n := by exact_mod_cast hn.trans (mul_one _)
  obtain ⟨hlow, hhigh⟩ := abs_lt.1 hclose
  obtain ⟨hqlow, hqhigh⟩ := abs_le.1 (show |q - z| ≤ 1 / 2 by linarith)
  have habove : (a / 10 ^ k : ℚ) ≤ (2 * z + 1 : ℤ) / 2 := by
    by_contra hlt
    have := le_sub_of_half_lt he ha (not_le.1 hlt)
    push_cast at this
    linarith
  have hbelow : ((2 * z - 1 : ℤ) / 2 : ℚ) ≤ a / 10 ^ k := by
    by_contra hlt
    have hneg : (((-(2 * z - 1) : ℤ) : ℚ) / 2) < (-a : ℤ) / 10 ^ k := by
      push_cast [neg_div] at hlt ⊢
      linarith
    have := le_sub_of_half_lt he (ha.neg_right) hneg
    push_cast [neg_div] at this
    linarith
  push_cast at habove hbelow
  refine ⟨z, by simp, ?_, fun htie => ?_⟩
  · have := abs_le.2 ⟨show -(1 / 2) ≤ (a / 10 ^ k - z : ℚ) by linarith, by linarith⟩
    linarith
  · have hhalf : |(a / 10 ^ k - z : ℚ)| = 1 / 2 := by linarith
    have hq : q = a / 10 ^ k := by
      rcases eq_or_eq_neg_of_abs_eq hhalf with h | h
      · exact hexact (2 * z + 1) (by push_cast; linarith)
      · exact hexact (2 * z - 1) (by push_cast; linarith)
    exact heven (by rw [hq, htie])

/-- A number with 53 bits in front of its zeros, of which there are fewer than the power of ten has,
goes to the nearest multiple. -/
theorem isNearest_of_rounded {i : ℚ} (he : e < k) (ha : 2 ^ e ∣ a) (hlt : a < 2 ^ (53 + e))
    (hi : IsRounded a i) (hq : IsRounded (i / 10 ^ k) q) (hnear : IsNearest 1 q z) :
    IsNearest (10 ^ k) a (z * 10 ^ k) := by
  have hten : (0 : ℚ) < 10 ^ k := by positivity
  have hlt' : (a : ℚ) < 2 ^ (53 + e) := by exact_mod_cast hlt
  obtain rfl : i = a := by
    obtain ⟨c, rfl⟩ := ha
    refine @IsRounded.eq_of_multiple _ _ hi c e (by push_cast; rw [zpow_natCast]; ring) ?_
    rw [add_comm (e : ℤ)]
    exact_mod_cast hlt'
  have hfits : (a : ℚ) / 10 ^ k < 2 ^ 52 := by
    have hpow : (2 : ℚ) ^ (e + 1) ≤ 10 ^ k :=
      (pow_le_pow_right₀ (by norm_num) he).trans (pow_le_pow_left₀ (by norm_num) (by norm_num) k)
    rw [div_lt_iff₀ hten]
    calc (a : ℚ) < 2 ^ (53 + e) := hlt'
      _ = 2 ^ 52 * 2 ^ (e + 1) := by ring
      _ ≤ 2 ^ 52 * 10 ^ k := by gcongr
  have hclose : |a / 10 ^ k - q| < 2 ^ e / 10 ^ k := by
    calc |a / 10 ^ k - q| ≤ a / 10 ^ k / 2 ^ 53 := hq.error
      _ < 2 ^ (53 + e) / 10 ^ k / 2 ^ 53 := by gcongr
      _ = 2 ^ e / 10 ^ k := by
        rw [pow_add]
        field_simp
  have hexact (h : ℤ) (hh : (a / 10 ^ k : ℚ) = h / 2) : q = a / 10 ^ k := by
    refine @IsRounded.eq_of_multiple _ _ hq h (-1) (by rw [hh]; norm_num; ring) ?_
    norm_num at hfits ⊢
    exact hfits
  have := (isNearest_of_close he ha hclose hexact hnear).scale hten
  rwa [one_mul, div_mul_cancel₀ _ hten.ne'] at this

/-- Rounding the number and the quotient adds a part in 2 ^ 50 of the number to what the nearest
multiple is off by, each counted twice. -/
theorem error_of_rounded {i : ℚ} (ha : 0 < a) (hi : IsRounded a i) (hq : IsRounded (i / 10 ^ k) q)
    (hnear : IsNearest 1 q z) : 2 * |(z * 10 ^ k - a : ℚ)| ≤ 10 ^ k + a / 2 ^ 50 := by
  have hten : (0 : ℚ) < 10 ^ k := by positivity
  have hpos : (0 : ℚ) < a := by exact_mod_cast ha
  obtain ⟨-, -, hle, -⟩ := hnear
  have hfirst : |a - i| ≤ a / 2 ^ 53 := hi.error
  have hsecond : |i - q * 10 ^ k| ≤ i / 2 ^ 53 := by
    calc |i - q * 10 ^ k| = |i / 10 ^ k - q| * 10 ^ k := by
          rw [← abs_of_pos hten, ← abs_mul, sub_mul, abs_of_pos hten, div_mul_cancel₀ _ hten.ne']
      _ ≤ i / 10 ^ k / 2 ^ 53 * 10 ^ k := by
        gcongr
        exact hq.error
      _ = i / 2 ^ 53 := by field_simp
  have hthird : |q * 10 ^ k - z * 10 ^ k| ≤ 10 ^ k / 2 := by
    rw [← sub_mul, abs_mul, abs_of_pos hten]
    nlinarith
  have hle' : i ≤ a + a / 2 ^ 53 := by
    linarith [neg_le_abs (a - i : ℚ)]
  have htotal : |(z * 10 ^ k - a : ℚ)| ≤
      |a - i| + |i - q * 10 ^ k| + |q * 10 ^ k - z * 10 ^ k| := by
    rw [abs_sub_comm]
    exact (abs_sub_le _ (q * 10 ^ k) _).trans (by gcongr; exact abs_sub_le _ _ _)
  linarith

/-! ## Integers as doubles -/

theorem intToFloat_rounds {n : ℤ} (hn : n ≠ 0) (hlt : n.natAbs < 2 ^ 64) :
    ∃ p, floatParts? (intToFloat n) = some p ∧ p.negative = decide (n < 0) ∧ p.IsNormal ∧
      (-52 ≤ p.exponent ∧ p.exponent ≤ 12) ∧ IsRounded (|n| : ℤ) p.magnitude := by
  have hpos : 0 < n.natAbs := Int.natAbs_pos.2 hn
  have hlog : n.natAbs.log2 < 64 := (Nat.log2_lt hpos.ne').2 hlt
  obtain ⟨p, hparts, hnegative, hrounds⟩ := @nearestFloat_rounds (n.natAbs.log2 - 52)
    ⟨decide (n < 0), n.natAbs, 0⟩ hpos (by dsimp only; omega) (by omega) (by omega)
  have hmagnitude : FloatParts.magnitude ⟨decide (n < 0), n.natAbs, 0⟩ = (|n| : ℤ) := by
    unfold FloatParts.magnitude
    rw [zpow_zero, mul_one, Nat.cast_natAbs]
  rw [hmagnitude] at hrounds
  have hlow := hrounds.exponent_low
  have hhigh := hrounds.exponent_high
  exact ⟨p, hparts, hnegative, hrounds.normal, ⟨by omega, by omega⟩, hrounds.rounded⟩

/-- Powers of ten that fit in a word have no more than 53 bits in front of their zeros. -/
theorem intToFloat_ten (hk : k ≤ 18) : ∃ p, floatParts? (intToFloat (Int.pow 10 k)) = some p ∧
    p.negative = false ∧ p.IsNormal ∧ (-52 ≤ p.exponent ∧ p.exponent ≤ 12) ∧
    p.magnitude = 10 ^ k := by
  have hpos : (0 : ℤ) < 10 ^ k := by positivity
  have hlt : (10 : ℤ) ^ k < 2 ^ 64 := (pow_le_pow_right₀ (by norm_num) hk).trans_lt (by norm_num)
  obtain ⟨p, hparts, hnegative, hnormal, hexponent, hrounded⟩ :=
    @intToFloat_rounds (10 ^ k) hpos.ne' (by omega)
  refine ⟨p, hparts, by rw [hnegative, decide_eq_false hpos.not_gt], hnormal, hexponent, ?_⟩
  have hten : ((10 ^ k : ℤ) : ℚ) = (5 ^ k : ℤ) * 2 ^ (k : ℤ) := by
    rw [zpow_natCast]
    push_cast
    rw [← mul_pow]
    norm_num
  have hbits : ((10 ^ k : ℤ) : ℚ) < 2 ^ ((k : ℤ) + 53) := by
    have hfive : (5 : ℚ) ^ k < 2 ^ 53 :=
      (pow_le_pow_right₀ (by norm_num) hk).trans_lt (by norm_num)
    rw [hten, zpow_add₀ two_ne_zero, mul_comm]
    push_cast
    gcongr
    exact hfive
  rw [abs_of_pos hpos] at hrounded
  rw [hrounded.eq_of_multiple hten hbits]
  push_cast
  rfl

/-! ## Rounding to tens -/

theorem roundInt_eq (i : Int64) (hlow : 1 ≤ k) (hhigh : k ≤ 18) :
    roundInt i (-k) = checkedInt ((floatParts? (intToFloat i.toInt /
      intToFloat (Int.pow 10 k))).elim 0 (·.nearestInt) * 10 ^ k) := by
  unfold roundInt
  rw [if_neg (by omega), if_neg (by omega), neg_neg, Int.toNat_natCast]
  rfl

/-- The sign apart, an integer is rounded to 53 bits first, then the quotient is, and the result is
the multiple by the nearest integer to that. -/
theorem roundInt_rounds {i : Int64} (hi : i.toInt ≠ 0) (hlow : 1 ≤ k) (hhigh : k ≤ 18) :
    ∃ (x q : ℚ) (z : ℤ), IsRounded (|i.toInt| : ℤ) x ∧ IsRounded (x / 10 ^ k) q ∧ IsNearest 1 q z ∧
      roundInt i (-k) = checkedInt ((if i.toInt < 0 then -z else z) * 10 ^ k) := by
  obtain ⟨hmin, hmax⟩ := inRange_toInt i
  obtain ⟨p, hp, hsign, hpnormal, hpexponent, hprounded⟩ := intToFloat_rounds hi (by omega)
  obtain ⟨t, ht, hpositive, htnormal, htexponent, hten⟩ := intToFloat_ten hhigh
  obtain ⟨r, hr, hnegative, hrrounded⟩ := div_rounds hp ht hpnormal htnormal (by omega) (by omega)
  rw [hten] at hrrounded
  have hround := roundInt_eq i hlow hhigh
  rw [hr, Option.elim_some] at hround
  have hnear := r.isNearest_nearestInt
  rw [FloatParts.value, hnegative, hsign, hpositive, Bool.bne_false] at hnear
  by_cases hneg : i.toInt < 0
  · rw [decide_eq_true hneg, if_pos rfl] at hnear
    refine ⟨_, _, -r.nearestInt, hprounded, hrrounded, ?_, by rw [if_pos hneg, neg_neg, hround]⟩
    have := hnear.neg
    rw [neg_neg] at this
    exact_mod_cast this
  · rw [decide_eq_false hneg, if_neg Bool.false_ne_true] at hnear
    exact ⟨_, _, r.nearestInt, hprounded, hrrounded, hnear, by rw [if_neg hneg, hround]⟩

theorem roundInt_zero {i : Int64} (hi : i.toInt = 0) (hlow : 1 ≤ k) (hhigh : k ≤ 18) :
    roundInt i (-k) = checkedInt 0 := by
  obtain ⟨t, ht, -, htnormal, -⟩ := intToFloat_ten hhigh
  obtain ⟨negative, hr⟩ := zero_div_parts ht ((Nat.two_pow_pos 52).trans_le htnormal.1).ne'
  have hnearest : FloatParts.nearestInt ⟨negative, 0, -1074⟩ = 0 := by
    cases negative <;> decide +kernel
  have hround := roundInt_eq i hlow hhigh
  rw [hi, show intToFloat 0 = 0 from rfl, hr, Option.elim_some, hnearest, zero_mul] at hround
  exact hround

/-- Every integer goes to a multiple, next to the nearest or a bounded error farther away. -/
theorem roundInt_tens (i : Int64) (hlow : 1 ≤ k) (hhigh : k ≤ 18) :
    ∃ n : ℤ, roundInt i (-k) = checkedInt (n * 10 ^ k) ∧
      2 * |(n * 10 ^ k - i.toInt : ℚ)| ≤ 10 ^ k + |(i.toInt : ℚ)| / 2 ^ 50 ∧
      ∀ e < k, 2 ^ e ∣ i.toInt → |i.toInt| < 2 ^ (53 + e) →
        IsNearest (10 ^ k) i.toInt (n * 10 ^ k) := by
  by_cases hi : i.toInt = 0
  · refine ⟨0, by rw [zero_mul, roundInt_zero hi hlow hhigh], ?_, fun e _ _ _ => ?_⟩
    · rw [hi]
      simp
    · rw [hi]
      exact ⟨0, by simp, by simp, by simp⟩
  · obtain ⟨x, q, z, hx, hq, hz, hround⟩ := roundInt_rounds hi hlow hhigh
    have hpos : 0 < |i.toInt| := abs_pos.2 hi
    have herror := error_of_rounded hpos hx hq hz
    have hnear (e : ℕ) (he : e < k) (hdvd : 2 ^ e ∣ i.toInt) (hlt : |i.toInt| < 2 ^ (53 + e)) :=
      isNearest_of_rounded he ((dvd_abs _ _).2 hdvd) hlt hx hq hz
    push_cast at herror hnear
    by_cases hneg : i.toInt < 0
    · have habs : |(i.toInt : ℚ)| = -i.toInt := abs_of_neg (by exact_mod_cast hneg)
      rw [if_pos hneg] at hround
      refine ⟨-z, hround, ?_, fun e he hdvd hlt => ?_⟩
      · rw [abs_sub_comm] at herror
        rw [habs] at herror ⊢
        convert herror using 3
        push_cast
        ring
      · have := (hnear e he hdvd hlt).neg
        rw [habs, neg_neg] at this
        push_cast
        rwa [neg_mul]
    · have habs : |(i.toInt : ℚ)| = i.toInt := abs_of_nonneg (by exact_mod_cast not_lt.1 hneg)
      rw [if_neg hneg] at hround
      rw [habs] at herror hnear ⊢
      exact ⟨z, hround, herror, hnear⟩

theorem rounded_int {v : Value} {m : Int64} (hv : v.int? = some m) (i : Int64) :
    (Value.int i).rounded v = ((roundInt i m.toInt).map Number.int).map Value.ofNumber := by
  rw [rounded_places hv]
  rfl

/-- Rounding to tens gives the nearest multiple, half to even, or says that it does not fit, where
the integer has no more than 53 bits in front of its zeros and fewer of them than the power has. Any
other integer goes to some multiple that may lie by a part in 2 ^ 51 of it farther away than half
the unit. Beyond 18 zeros the result is zero, whether that is the nearest multiple or not. -/
theorem round_tens (i : Int64) {k : ℕ} (hk : 1 ≤ k) {v : Value} {m : Int64}
    (hv : v.int? = some m) (hm : m.toInt = -k) :
    let result := (Value.int i).rounded v
    (∀ call r s, Builtin.round.run call r (.ofList [.int i, v]) s =
      (liftM result : Eval Value) s) ∧
    ((k ≤ 18 ∧ ∃ e < k, 2 ^ e ∣ i.toInt ∧ |i.toInt| < 2 ^ (53 + e)) ∨
        (18 < k ∧ 2 * |i.toInt| ≤ 10 ^ k) →
      ∃ z : ℤ, IsNearest (10 ^ k) i.toInt z ∧ IsExact z result) ∧
    (k ≤ 18 → ∃ n : ℤ, 2 * |(n * 10 ^ k - i.toInt : ℚ)| ≤ 10 ^ k + |(i.toInt : ℚ)| / 2 ^ 50 ∧
      IsExact (n * 10 ^ k) result) ∧
    (18 < k → result = .ok (.int 0)) := by
  intro result
  have hresult : result = ((roundInt i (-k)).map Number.int).map Value.ofNumber :=
    hm ▸ rounded_int hv i
  have hzero (hlarge : 18 < k) : result = .ok (.int 0) := by
    rw [hresult, roundInt, if_neg (by omega), if_pos (by omega)]
    rfl
  refine ⟨fun _ _ _ => rfl, ?_, fun hhigh => ?_, hzero⟩
  · rintro (⟨hhigh, e, he, hdvd, hlt⟩ | ⟨hlarge, hle⟩)
    · obtain ⟨n, hround, -, hnear⟩ := roundInt_tens i hk hhigh
      refine ⟨n * 10 ^ k, ?_, ?_⟩
      · push_cast
        exact hnear e he hdvd hlt
      · rw [hresult, hround]
        exact isExact_checkedInt _
    · refine ⟨0, ⟨0, by simp, ?_, fun _ => Even.zero⟩, ?_⟩
      · rw [Int.cast_zero, sub_zero]
        exact_mod_cast hle
      · rw [hzero hlarge]
        exact isExact_checkedInt 0
  · obtain ⟨n, hround, herror, -⟩ := roundInt_tens i hk hhigh
    refine ⟨n, herror, ?_⟩
    rw [hresult, hround]
    exact isExact_checkedInt _

/-- An integer of 62 bits, the last 17 of them zeros, that lies half way between two multiples. -/
theorem round_tens_tie :
    1 ≤ 18 ∧ (Value.int (-18)).int? = some (-18) ∧ (-18 : Int64).toInt = -18 ∧
    (Value.int 2500000000000000000).rounded (.int (-18)) = .ok (.int 2000000000000000000) := by
  have hi : (2500000000000000000 : Int64).toInt = 2500000000000000000 := by decide
  obtain ⟨z, hnear, hexact⟩ := (@round_tens 2500000000000000000 18 (by decide) (.int (-18)) (-18)
    rfl (by decide)).2.1 (.inl ⟨le_rfl, 17, by decide, by rw [hi]; norm_num, by rw [hi]; norm_num⟩)
  have heven : IsNearest (10 ^ 18) (2500000000000000000 : Int64).toInt
      (2000000000000000000 : ℤ) := by
    refine ⟨2, by norm_num, ?_, fun _ => even_two⟩
    rw [hi]
    norm_num [abs_of_pos]
  obtain rfl : z = 2000000000000000000 := by
    exact_mod_cast hnear.unique (by positivity) heven
  obtain ⟨n, hn, hresult⟩ := hexact.gives (by decide)
  obtain rfl : n = 2000000000000000000 := Int64.toInt_inj.1 hn
  exact ⟨by decide, rfl, by decide, hresult⟩

/-- A word one above half the unit is rounded to that half before it is divided, and so to zero. -/
theorem not_round_tens : ¬∀ (i : Int64) (k : ℕ) (v : Value) (m : Int64), 1 ≤ k →
    v.int? = some m → m.toInt = -k →
    ∃ z : ℤ, IsNearest (10 ^ k) i.toInt z ∧ IsExact z ((Value.int i).rounded v) := by
  intro h
  have hi : (500000000000000001 : Int64).toInt = 500000000000000001 := by decide
  obtain ⟨z, hnear, hexact⟩ :=
    h 500000000000000001 18 (.int (-18)) (-18) (by decide) rfl (by decide)
  have habove : IsNearest (10 ^ 18) (500000000000000001 : Int64).toInt
      (1000000000000000000 : ℤ) := by
    refine ⟨1, by norm_num, ?_, ?_⟩ <;> rw [hi] <;> norm_num [abs_of_neg]
  obtain rfl : z = 1000000000000000000 := by
    exact_mod_cast hnear.unique (by positivity) habove
  obtain ⟨n, hn, hresult⟩ := hexact.gives (by decide)
  have hzero : roundInt 500000000000000001 (-(18 : ℕ)) = .ok 0 := by
    have hquotient : (floatParts? (intToFloat (500000000000000001 : Int64).toInt /
        intToFloat (Int.pow 10 18))).elim 0 (·.nearestInt) = 0 := by
      decide +kernel
    rw [roundInt_eq _ (by decide) le_rfl, hquotient, zero_mul]
    rfl
  rw [rounded_int rfl, show (-18 : Int64).toInt = -(18 : ℕ) by decide, hzero] at hresult
  obtain rfl : 0 = n := by
    cases hresult
    rfl
  contradiction

end ExprLang
