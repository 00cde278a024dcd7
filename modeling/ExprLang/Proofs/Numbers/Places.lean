import ExprLang.Evaluator
import ExprLang.Proofs.Numbers.Nearest
import Mathlib.Data.List.TakeWhile
import Mathlib.Data.Nat.Cast.Field

/-!
# Decimal places

A finite double that is rounded to decimal places goes through a text, and that text writes the
nearest multiple of the unit of the last place, half to even (`round_exact`). The expansion of the
double writes it in exact units (`FloatParts.expansion_spec`, `FloatParts.cast_exactUnits`). Cutting
digits off it, and counting the others up where the first of those or what follows it says so, is
dividing by a power of ten half to even (`add_countsUp`), wherever the cut is. A one that is carried
out of the front comes with a place of its own, and the zeros that stand for digits before the point
do too, so neither changes where the last kept digit stands (`Expansion.rounded_spec`,
`Expansion.read_filled`). What the text writes is read off by its point (`readScientific?_digits`).

The exact places are kept out of computations on numbers: a power of ten with that exponent is never
evaluated.
-/

namespace ExprLang

variable {ds kept dropped : List Nat} {d : Nat}

/-! ## Digits -/

/-- Whether numbers are decimal digits. -/
def AreDigits (ds : List Nat) : Prop :=
  ∀ d ∈ ds, d < 10

/-- The number that digits write. -/
def digitsValue (ds : List Nat) : Nat :=
  Nat.ofDigitChars 10 (ds.map Nat.digitChar) 0

theorem digitsValue_append (xs ys : List Nat) :
    digitsValue (xs ++ ys) = 10 ^ ys.length * digitsValue xs + digitsValue ys := by
  unfold digitsValue
  rw [List.map_append, Nat.ofDigitChars_append, Nat.ofDigitChars_eq_ofDigitChars_zero,
    List.length_map]

theorem digitsValue_cons (hd : d < 10) (ds : List Nat) :
    digitsValue (d :: ds) = 10 ^ ds.length * d + digitsValue ds := by
  unfold digitsValue
  rw [List.map_cons, Nat.ofDigitChars_cons_digitChar_of_lt_ten hd,
    Nat.ofDigitChars_eq_ofDigitChars_zero, List.length_map, Nat.mul_zero, Nat.zero_add]

theorem digitsValue_replicate_zero (n : Nat) : digitsValue (List.replicate n 0) = 0 := by
  unfold digitsValue
  rw [List.map_replicate]
  exact Nat.ofDigitChars_replicate_zero.trans (Nat.mul_zero _)

theorem digitsValue_lt (h : AreDigits ds) : digitsValue ds < 10 ^ ds.length := by
  induction ds with
  | nil => decide
  | cons d ds ih =>
    obtain ⟨hd, hds⟩ := List.forall_mem_cons.1 h
    have hlt := ih hds
    have hle : 10 ^ ds.length * d ≤ 10 ^ ds.length * 9 := Nat.mul_le_mul_left _ (by omega)
    rw [digitsValue_cons hd, List.length_cons, Nat.pow_succ]
    omega

/-- Digits write zero only if all of them are zeros. -/
theorem digitsValue_eq_zero_iff (h : AreDigits ds) :
    digitsValue ds = 0 ↔ ds.any (· != 0) = false := by
  induction ds with
  | nil => simp [digitsValue]
  | cons d ds ih =>
    obtain ⟨hd, hds⟩ := List.forall_mem_cons.1 h
    rw [digitsValue_cons hd, List.any_cons, Bool.or_eq_false_iff, ← ih hds, Nat.add_eq_zero_iff]
    simp

/-- The last digit tells whether a number is odd. -/
theorem digitsValue_mod_two (h : AreDigits ds) :
    digitsValue ds % 2 = (ds.getLast?.any (· % 2 == 1)).toNat := by
  rcases List.eq_nil_or_concat ds with rfl | ⟨front, d, rfl⟩
  · rfl
  · have hd : d < 10 := h d (by simp)
    have hlast : digitsValue [d] = d := by
      rw [digitsValue_cons hd]
      simp [digitsValue]
    rw [List.concat_eq_append, digitsValue_append, hlast, List.getLast?_concat, Option.any_some]
    rcases Nat.mod_two_eq_zero_or_one d with hmod | hmod
    · simp [hmod]
      omega
    · simp [hmod]
      omega

/-! ## Rounding -/

theorem divHalfEven_mul_add {unit k r : Nat} (hr : r < unit) :
    divHalfEven (unit * k + r) unit =
      if 2 * r < unit then k else if unit < 2 * r then k + 1 else k + k % 2 := by
  have hunit : 0 < unit := by omega
  unfold divHalfEven
  rw [Nat.mul_add_div hunit, Nat.div_eq_of_lt hr, Nat.mul_add_mod, Nat.mod_eq_of_lt hr,
    Nat.add_zero]

/-- Cutting digits off and counting up where they say so divides half to even. -/
theorem add_countsUp (hkept : AreDigits kept) (hdropped : AreDigits dropped) :
    digitsValue kept + (countsUp kept dropped).toNat =
      divHalfEven (digitsValue (kept ++ dropped)) (10 ^ dropped.length) := by
  rw [digitsValue_append, divHalfEven_mul_add (digitsValue_lt hdropped)]
  cases dropped with
  | nil => simp [countsUp, digitsValue]
  | cons d beyond =>
    obtain ⟨hd, hbeyond⟩ := List.forall_mem_cons.1 hdropped
    have hlt := digitsValue_lt hbeyond
    have hzero := digitsValue_eq_zero_iff hbeyond
    have hodd := digitsValue_mod_two hkept
    rw [digitsValue_cons hd, List.length_cons, Nat.pow_succ, countsUp]
    generalize 10 ^ beyond.length = unit at hlt ⊢
    rcases Nat.lt_trichotomy d 5 with hless | rfl | hmore
    · have hmul : unit * d ≤ unit * 4 := Nat.mul_le_mul_left _ (by omega)
      have hup : (decide (5 < d) || d == 5 &&
          (beyond.any (· != 0) || kept.getLast?.any (· % 2 == 1))) = false := by
        simp
        omega
      rw [hup, if_pos (by omega), Bool.toNat_false, Nat.add_zero]
    · rcases Nat.eq_zero_or_pos (digitsValue beyond) with hnone | hsome
      · rw [if_neg (by omega), if_neg (by omega), hodd, hzero.1 hnone]
        simp
      · have hany : beyond.any (· != 0) = true := by
          rw [← Bool.not_eq_false, ← hzero]
          omega
        rw [if_neg (by omega), if_pos (by omega), hany]
        simp
    · have hmul : unit * 6 ≤ unit * d := Nat.mul_le_mul_left _ (by omega)
      rw [if_neg (by omega), if_pos (by omega), decide_eq_true hmore, Bool.true_or,
        Bool.toNat_true]

/-- Digits are counted up by one, or overflow to zeros with one carried out. -/
theorem increased_spec (h : AreDigits ds) :
    AreDigits (increased ds).1 ∧ (increased ds).1.length = ds.length ∧
      digitsValue (increased ds).1 + 10 ^ ds.length * (increased ds).2.toNat =
        digitsValue ds + 1 := by
  induction ds with
  | nil => exact ⟨by simp [increased, AreDigits], rfl, by simp [increased, digitsValue]⟩
  | cons d ds ih =>
    obtain ⟨hd, hds⟩ := List.forall_mem_cons.1 h
    obtain ⟨hdigits, hlength, hvalue⟩ := ih hds
    rw [increased]
    cases hnext : increased ds with
    | mk next carry =>
    rw [hnext] at hdigits hlength hvalue
    dsimp only at hdigits hlength hvalue
    cases carry with
    | false =>
      refine ⟨List.forall_mem_cons.2 ⟨hd, hdigits⟩, by simp [hlength], ?_⟩
      simp only [digitsValue_cons hd, hlength, Bool.toNat_false] at hvalue ⊢
      omega
    | true =>
      simp only [Bool.toNat_true] at hvalue
      dsimp only
      by_cases hnine : d = 9
      · rw [if_pos hnine, hnine]
        refine ⟨List.forall_mem_cons.2 ⟨by decide, hdigits⟩, by simp [hlength], ?_⟩
        rw [digitsValue_cons (by decide), digitsValue_cons (by decide), Bool.toNat_true,
          List.length_cons, Nat.pow_succ]
        omega
      · rw [if_neg hnine]
        have hnext : d + 1 < 10 := by omega
        refine ⟨List.forall_mem_cons.2 ⟨hnext, hdigits⟩, by simp [hlength], ?_⟩
        simp only [digitsValue_cons hnext, digitsValue_cons hd, hlength, Bool.toNat_false,
          Nat.mul_add]
        omega

namespace Expansion

variable {e : Expansion} {keep : Nat}

/-- The digits that are kept write the quotient by the weight of those that are not, rounded half to
even, and they keep their places. -/
theorem rounded_spec (h : AreDigits e.digits) (hkeep : keep ≤ e.digits.length) :
    AreDigits (e.rounded keep).digits ∧
      digitsValue (e.rounded keep).digits =
        divHalfEven (digitsValue e.digits) (10 ^ (e.digits.length - keep)) ∧
      (e.rounded keep).digits.length + e.point = keep + (e.rounded keep).point ∧
      e.point ≤ (e.rounded keep).point := by
  have hkept : AreDigits (e.digits.take keep) := fun d hd => h d (List.mem_of_mem_take hd)
  have hdropped : AreDigits (e.digits.drop keep) := fun d hd => h d (List.mem_of_mem_drop hd)
  have hvalue := add_countsUp hkept hdropped
  rw [List.take_append_drop, List.length_drop] at hvalue
  have hlength : (e.digits.take keep).length = keep := List.length_take_of_le hkeep
  unfold rounded
  dsimp only
  cases hup : countsUp (e.digits.take keep) (e.digits.drop keep) with
  | false =>
    rw [hup] at hvalue
    exact ⟨hkept, hvalue, by simp [hlength], le_rfl⟩
  | true =>
    rw [hup] at hvalue
    obtain ⟨hdigits, hsame, hcount⟩ := increased_spec hkept
    rw [if_pos rfl]
    cases hnext : increased (e.digits.take keep) with
    | mk next carry =>
    rw [hnext] at hdigits hsame hcount
    dsimp only at hdigits hsame hcount
    cases carry with
    | false =>
      refine ⟨hdigits, ?_, ?_, le_rfl⟩
      · rw [← hvalue]
        simpa using hcount
      · dsimp only
        omega
    | true =>
      refine ⟨List.forall_mem_cons.2 ⟨by decide, hdigits⟩, ?_, ?_, ?_⟩
      · rw [← hvalue, Bool.toNat_true, ← hcount, digitsValue_cons (by decide), hsame]
        simp [Nat.add_comm]
      · show next.length + 1 + e.point = keep + (e.point + 1)
        omega
      · exact Nat.le_succ _

/-- Zeros up to the point make an expansion one of a number with that many more digits. -/
theorem filled_spec (h : AreDigits e.digits) :
    AreDigits e.filled.digits ∧ e.filled.digits.length = max e.digits.length e.point ∧
      digitsValue e.filled.digits =
        10 ^ (e.point - e.digits.length) * digitsValue e.digits := by
  unfold filled
  refine ⟨fun d hd => ?_, ?_, ?_⟩
  · rcases List.mem_append.1 hd with hd | hd
    · exact h d hd
    · rw [(List.mem_replicate.1 hd).2]
      decide
  · rw [List.length_append, List.length_replicate]
    omega
  · rw [digitsValue_append, List.length_replicate, digitsValue_replicate_zero, Nat.add_zero]

end Expansion

/-! ## Texts -/

section

variable {whole fraction : List Char} (hwhole : ∀ c ∈ whole, c.isDigit = true)
  (hfraction : ∀ c ∈ fraction, c.isDigit = true) (hne : whole ≠ [])

include hwhole hfraction hne

/-- Digits after a point are read as a decimal exponent. -/
theorem readScientific?_digits : readScientific? (whole ++ '.' :: fraction) =
    some ⟨digitsToNat (whole ++ fraction), -fraction.length⟩ := by
  have htake : (whole ++ '.' :: fraction).takeWhile Char.isDigit = whole := by
    rw [List.takeWhile_append_of_pos hwhole, List.takeWhile_cons_of_neg (by simp), List.append_nil]
  have hdrop : (whole ++ '.' :: fraction).dropWhile Char.isDigit = '.' :: fraction := by
    rw [List.dropWhile_append_of_pos hwhole, List.dropWhile_cons_of_neg (by simp)]
  unfold readScientific?
  rw [htake, hdrop]
  show (if whole.isEmpty && (fraction.takeWhile Char.isDigit).isEmpty then none else
    (readExponent? (fraction.dropWhile Char.isDigit)).map fun e => Scientific.mk
      (digitsToNat (whole ++ fraction.takeWhile Char.isDigit))
      (e - (fraction.takeWhile Char.isDigit).length)) = _
  rw [List.takeWhile_eq_self_iff.2 hfraction, List.dropWhile_eq_nil_iff.2 hfraction]
  simp [hne, readExponent?]

/-- Neither a sign nor a word for what is no finite number stands where a decimal begins. -/
theorem readFloat?_digits : readFloat? (whole ++ '.' :: fraction) =
    (readScientific? (whole ++ '.' :: fraction)).map Scientific.toFloat := by
  have hunsigned : readSign (whole ++ '.' :: fraction) = (false, whole ++ '.' :: fraction) := by
    obtain ⟨c, cs, rfl⟩ := List.exists_cons_of_ne_nil hne
    have hc := hwhole c (by simp)
    unfold readSign
    split
    · next heq =>
      obtain ⟨rfl, -⟩ := List.cons.inj heq
      cases hc
    · next heq =>
      obtain ⟨rfl, -⟩ := List.cons.inj heq
      cases hc
    · rfl
  have hspecial : readSpecial? (whole ++ '.' :: fraction) = none := by
    have hpoint : '.' ∈ (String.ofList ((whole ++ '.' :: fraction).map Char.toLower)).toList := by
      rw [String.toList_ofList]
      exact List.mem_map.2 ⟨'.', by simp, rfl⟩
    unfold readSpecial?
    split
    · next heq => exact absurd (heq ▸ hpoint) (by decide)
    · next heq => exact absurd (heq ▸ hpoint) (by decide)
    · next heq => exact absurd (heq ▸ hpoint) (by decide)
    · rfl
  unfold readFloat? readFloatBy?
  rw [hunsigned]
  dsimp only
  rw [hspecial, readScientific?_digits hwhole hfraction hne]
  rfl

end

/-! ## Expansions of doubles -/

theorem digitChar_of_isDigit {c : Char} (h : c.isDigit = true) :
    c.toNat - 48 < 10 ∧ Nat.digitChar (c.toNat - 48) = c := by
  have hrange : 48 ≤ c.toNat ∧ c.toNat ≤ 57 := by
    simpa [Char.isDigit, UInt32.le_iff_toNat_le] using h
  refine ⟨by omega, Char.toNat_inj.1 ?_⟩
  rw [Nat.toNat_digitChar_of_lt_ten (by omega)]
  omega

theorem digits_of_chars {cs : List Char} (h : ∀ c ∈ cs, c.isDigit = true) :
    AreDigits (cs.map fun c => c.toNat - 48) ∧
      digitsValue (cs.map fun c => c.toNat - 48) = Nat.ofDigitChars 10 cs 0 := by
  refine ⟨List.forall_mem_map.2 fun c hc => (digitChar_of_isDigit (h c hc)).1, ?_⟩
  have hback : (cs.map fun c => c.toNat - 48).map Nat.digitChar = cs.map id := by
    rw [List.map_map]
    exact List.map_congr_left fun c hc => (digitChar_of_isDigit (h c hc)).2
  rw [digitsValue, hback, List.map_id]

/-- Zeros in front of a number that has no more digits than there are places. -/
theorem padded_decimalDigits {n width : Nat} (hwidth : 0 < width) (hn : n < 10 ^ width) :
    (∀ c ∈ padded width (decimalDigits n), c.isDigit = true) ∧
      (padded width (decimalDigits n)).length = width ∧
      Nat.ofDigitChars 10 (padded width (decimalDigits n)) 0 = n := by
  have hlength : (decimalDigits n).length ≤ width :=
    (Nat.length_toDigits_le_iff (by decide) hwidth).2 hn
  refine ⟨fun c hc => ?_, ?_, ?_⟩
  · rcases List.mem_append.1 hc with hc | hc
    · rw [(List.mem_replicate.1 hc).2]
      rfl
    · exact Nat.isDigit_of_mem_toDigits (by decide) (by decide) hc
  · rw [padded, List.length_append, List.length_replicate]
    omega
  · rw [padded, Nat.ofDigitChars_append, Nat.ofDigitChars_replicate_zero, Nat.mul_zero]
    exact Nat.ofDigitChars_ten_toDigits

namespace FloatParts

variable {p : FloatParts}

/-- The expansion of a double writes its exact units, with the point where the units begin. -/
theorem expansion_spec (p : FloatParts) :
    AreDigits p.expansion.digits ∧ digitsValue p.expansion.digits = p.exactUnits ∧
      p.expansion.digits.length = p.expansion.point + exactPlaces ∧ 0 < p.expansion.point := by
  have hplaces : 0 < exactPlaces := by decide
  unfold expansion
  generalize exactPlaces = places at hplaces ⊢
  generalize p.exactUnits = n
  dsimp only
  have hunit : 0 < 10 ^ places := Nat.pow_pos (by decide)
  obtain ⟨hfraction, hlength, hvalue⟩ := padded_decimalDigits hplaces (Nat.mod_lt n hunit)
  have hwhole : ∀ c ∈ decimalDigits (n / 10 ^ places), c.isDigit = true := fun c hc =>
    Nat.isDigit_of_mem_toDigits (by decide) (by decide) hc
  obtain ⟨hdigits, hdigitsValue⟩ := digits_of_chars (List.forall_mem_append.2 ⟨hwhole, hfraction⟩)
  refine ⟨hdigits, hdigitsValue.trans ?_, ?_, Nat.length_toDigits_pos⟩
  · rw [Nat.ofDigitChars_append, Nat.ofDigitChars_eq_ofDigitChars_zero, hlength, hvalue,
      decimalDigits, Nat.ofDigitChars_ten_toDigits, Nat.div_add_mod]
  · rw [List.length_map, List.length_append]
    exact congrArg _ hlength

/-- No digit of a double is beyond the exact places. -/
theorem cast_exactUnits (h : -1074 ≤ p.exponent) :
    (p.exactUnits : ℚ) = p.magnitude * 10 ^ exactPlaces := by
  have hplaces : (-p.exponent).toNat ≤ exactPlaces := by
    have : exactPlaces = 1100 := rfl
    omega
  unfold exactUnits
  generalize exactPlaces = places at hplaces ⊢
  rcases le_or_gt 0 p.exponent with hexponent | hexponent
  · have hone : (-p.exponent).toNat = 0 := Int.toNat_eq_zero.2 (by omega)
    rw [hone, magnitude_of_nonneg hexponent]
    simp [Nat.pow_eq]
  · have hone : p.exponent.toNat = 0 := Int.toNat_eq_zero.2 (by omega)
    have hdvd : 2 ^ (-p.exponent).toNat ∣ 10 ^ places :=
      (pow_dvd_pow 2 hplaces).trans (pow_dvd_pow_of_dvd (by decide) places)
    have hpos : ((2 ^ (-p.exponent).toNat : ℕ) : ℚ) ≠ 0 := by positivity
    rw [hone, magnitude_of_neg hexponent, div_mul_eq_mul_div]
    simp only [Nat.pow_eq, Nat.pow_zero, Nat.mul_one]
    rw [Nat.cast_div (hdvd.mul_left _) hpos]
    push_cast
    rfl

end FloatParts

theorem exponent_of_floatParts? {x : Double} {p : FloatParts} (h : floatParts? x = some p) :
    -1074 ≤ p.exponent := by
  unfold floatParts? at h
  dsimp only at h
  split at h
  · cases h
  split at h
  · cases h
    exact le_rfl
  · cases h
    dsimp only
    omega

/-! ## What is read -/

/-- The number that a decimal with an exponent writes. -/
def Scientific.value (d : Scientific) : ℚ :=
  d.mantissa * 10 ^ d.exponent

namespace FloatParts

variable {p : FloatParts} {places : Int}

/-- Where no digit position is left, zero is nearest. -/
theorem isNearest_zero (hexponent : -1074 ≤ p.exponent) (h : p.expansion.point + places < 0) :
    IsNearest (10 ^ (-places)) p.magnitude 0 := by
  obtain ⟨hdigits, hvalue, hlength, -⟩ := p.expansion_spec
  have hlt := digitsValue_lt hdigits
  rw [hvalue, hlength] at hlt
  have hbound : p.magnitude < 10 ^ p.expansion.point := by
    have hcast : (p.exactUnits : ℚ) < 10 ^ (p.expansion.point + exactPlaces) := by
      exact_mod_cast hlt
    rw [cast_exactUnits hexponent, pow_add] at hcast
    exact lt_of_mul_lt_mul_right hcast (by positivity)
  have hunit : (10 : ℚ) ^ p.expansion.point * 10 ≤ 10 ^ (-places) := by
    rw [← zpow_natCast, ← zpow_add_one₀ (by norm_num)]
    exact zpow_le_zpow_right₀ (by norm_num) (by omega)
  have hnonneg := p.magnitude_nonneg
  refine ⟨0, by simp, ?_, fun _ => Even.zero⟩
  rw [sub_zero, abs_of_nonneg hnonneg]
  generalize (10 : ℚ) ^ p.expansion.point = bound at hbound hunit
  linarith only [hbound, hunit, hnonneg]

/-- The quotient by the weight of what is cut off is counted in units of the last place kept. -/
theorem isNearest_quotient (hexponent : -1074 ≤ p.exponent) {dropped : Nat}
    (h : places + dropped = exactPlaces) : IsNearest (10 ^ (-places)) p.magnitude
      (divHalfEven p.exactUnits (10 ^ dropped) * 10 ^ (-places)) := by
  have hten : (10 : ℚ) ≠ 0 := by norm_num
  have hunit : (0 : ℚ) < 10 ^ (-places) := zpow_pos (by norm_num) _
  have hpos : 0 < 10 ^ dropped := Nat.pow_pos (by decide)
  have hnear := (isNearest_divHalfEven p.exactUnits hpos).scale hunit
  have hmagnitude : (p.exactUnits / (10 ^ dropped : ℕ) * 10 ^ (-places) : ℚ) = p.magnitude := by
    rw [cast_exactUnits hexponent, zpow_neg, ← div_eq_mul_inv, div_div, mul_div_assoc]
    have hweight : ((10 ^ dropped : ℕ) : ℚ) * 10 ^ places = 10 ^ exactPlaces := by
      push_cast
      rw [← zpow_natCast, ← zpow_natCast, ← zpow_add₀ hten, add_comm, h]
    rw [hweight, div_self (pow_ne_zero _ hten), mul_one]
  rwa [one_mul, hmagnitude] at hnear

end FloatParts

namespace Expansion

variable {e : Expansion}

/-- Zeros put before the point and digits put behind it are weights of the same digits. -/
theorem read_filled (h : AreDigits e.digits) (hpoint : 0 < e.point) :
    ∃ d, readScientific? e.filled.text = some d ∧ readFloat? e.filled.text = some d.toFloat ∧
      d.value = digitsValue e.digits * 10 ^ ((e.point : ℤ) - e.digits.length) := by
  obtain ⟨hfilled, hlength, hvalue⟩ := filled_spec h
  have hchars : ∀ c ∈ e.filled.digits.map Nat.digitChar, c.isDigit = true := by
    have table : ∀ d < 10, d.digitChar.isDigit = true := by decide
    exact List.forall_mem_map.2 fun d hd => table d (hfilled d hd)
  have hwhole : ∀ c ∈ (e.filled.digits.map Nat.digitChar).take e.point, c.isDigit = true :=
    fun c hc => hchars c (List.mem_of_mem_take hc)
  have hfraction : ∀ c ∈ (e.filled.digits.map Nat.digitChar).drop e.point, c.isDigit = true :=
    fun c hc => hchars c (List.mem_of_mem_drop hc)
  have hne : (e.filled.digits.map Nat.digitChar).take e.point ≠ [] := by
    rw [← List.length_pos_iff, List.length_take, List.length_map]
    omega
  have hread := readScientific?_digits hwhole hfraction hne
  have hfloat := readFloat?_digits hwhole hfraction hne
  rw [hread] at hfloat
  refine ⟨_, hread, hfloat, ?_⟩
  rw [List.take_append_drop, List.length_drop, List.length_map, hlength]
  show (digitsValue e.filled.digits : ℚ) *
    10 ^ (-((max e.digits.length e.point - e.point : ℕ) : ℤ)) = _
  have hten : (10 : ℚ) ≠ 0 := by norm_num
  rw [hvalue]
  push_cast
  rw [mul_comm _ (digitsValue e.digits : ℚ), mul_assoc, ← zpow_natCast, ← zpow_add₀ hten]
  congr 2
  omega

end Expansion

/-- The text of a rounded double writes the nearest multiple, and there is none where that is
zero. -/
theorem FloatParts.roundedText?_spec {p : FloatParts} {places : Int}
    (hexponent : -1074 ≤ p.exponent) (hplaces : places ≤ exactPlaces) :
    (p.roundedText? places = none → IsNearest (10 ^ (-places)) p.magnitude 0) ∧
    ∀ text, p.roundedText? places = some text → ∃ d, readScientific? text = some d ∧
      readFloat? text = some d.toFloat ∧ IsNearest (10 ^ (-places)) p.magnitude d.value := by
  unfold roundedText?
  dsimp only
  by_cases h : p.expansion.point + places < 0
  · rw [if_pos h]
    exact ⟨fun _ => isNearest_zero hexponent h, nofun⟩
  · rw [if_neg h]
    refine ⟨nofun, fun text htext => ?_⟩
    obtain rfl := Option.some.inj htext
    obtain ⟨hdigits, hvalue, hlength, hpoint⟩ := p.expansion_spec
    obtain ⟨keep, hkeep⟩ := Int.eq_ofNat_of_zero_le (not_lt.1 h)
    have hle : keep ≤ p.expansion.digits.length := by omega
    rw [hkeep, Int.toNat_natCast]
    obtain ⟨hrounded, hquotient, hshift, hmore⟩ := Expansion.rounded_spec hdigits hle
    obtain ⟨d, hread, hfloat, hd⟩ := Expansion.read_filled hrounded (by omega)
    refine ⟨d, hread, hfloat, ?_⟩
    have hnear := isNearest_quotient hexponent
      (show places + (p.expansion.digits.length - keep : ℕ) = exactPlaces by omega)
    rw [hquotient, hvalue] at hd
    have hexp : ((p.expansion.rounded keep).point : ℤ) - (p.expansion.rounded keep).digits.length =
        -places := by
      omega
    rw [hd, hexp]
    exact hnear

/-! ## Main statement -/

/-- Any integer may say how many places a value is rounded to. -/
theorem rounded_places {places : Value} {k : Int64} (hk : places.int? = some k) (v : Value) :
    v.rounded places = (v.number?.bind (Number.round? (some k.toInt))).elim
      (.error (.type (.notRoundable v.typeName))) (·.map Value.ofNumber) := by
  cases places with
  | bool | int =>
    cases hk
    unfold Value.rounded
    cases hround : v.number?.bind (Number.round? (some _)) with
    | none =>
      simp [Value.isNone, Value.asInteger, Value.int?, bind, Except.bind, hround]
      rfl
    | some result =>
      simp [Value.isNone, Value.asInteger, Value.int?, bind, Except.bind, hround]
  | _ => cases hk

theorem rounded_float {v : Value} {k : Int64} (hv : v.int? = some k) (x : Double) :
    (Value.float x).rounded v = (roundFloat x k.toInt).map Value.float := by
  rw [rounded_places hv]
  show ((roundFloat x k.toInt).map Number.float).map Value.ofNumber = _
  cases roundFloat x k.toInt <;> rfl

theorem run_round {v : Value} {k : Int64} (hv : v.int? = some k) (x : Double) (call : Caller)
    (r : RealmId) (s : Store) : Builtin.round.run call r (.ofList [.float x, v]) s =
      match roundFloat x k.toInt with
      | .ok y => EStateM.Result.ok (.float y) s
      | .error e => EStateM.Result.error e s := by
  show (liftM ((Value.float x).rounded v) : Eval Value) s = _
  rw [rounded_float hv]
  cases roundFloat x k.toInt <;> rfl

/-- A finite double is rounded to decimal places on its digits. The text that is made of them writes
the nearest multiple of the last place's unit, half to even, and zero stands for it where no digit
position is left. The result is the double that is read from the text, with the sign of the number,
unless it would be infinite. -/
theorem round_exact {x : Double} {p : FloatParts} (hx : floatParts? x = some p) {v : Value}
    {k : Int64} (hv : v.int? = some k) (hlow : -308 ≤ k.toInt) (hhigh : k.toInt ≤ 308)
    (call : Caller) (r : RealmId) (s : Store) :
    let result := Builtin.round.run call r (.ofList [.float x, v]) s
    (p.roundedText? k.toInt = none → IsNearest (10 ^ (-k.toInt)) p.magnitude 0 ∧
      result = .ok (.float (p.signedDouble 0)) s) ∧
    ∀ text, p.roundedText? k.toInt = some text → ∃ d, readScientific? text = some d ∧
      IsNearest (10 ^ (-k.toInt)) p.magnitude d.value ∧
      result = if d.toFloat.isFinite then .ok (.float (p.signedDouble d.toFloat)) s
        else .error (.overflow .integer) s := by
  intro result
  have hplaces : k.toInt ≤ exactPlaces := hhigh.trans (by decide)
  obtain ⟨hnone, hsome⟩ := p.roundedText?_spec (exponent_of_floatParts? hx) hplaces
  have hresult : result = match roundFloat x k.toInt with
      | .ok y => EStateM.Result.ok (.float y) s
      | .error e => EStateM.Result.error e s := run_round hv x call r s
  have hround : roundFloat x k.toInt = (p.roundedText? k.toInt).elim (.ok (p.signedDouble 0))
      fun text => ((readFloat? text).filter (·.isFinite)).elim (.error (.overflow .integer))
        fun rounded => .ok (p.signedDouble rounded) := by
    unfold roundFloat
    rw [hx]
    dsimp only
    rw [if_neg (by omega), if_neg (by omega)]
    cases p.roundedText? k.toInt with
    | none => rfl
    | some text =>
      dsimp only [Option.elim_some]
      cases (readFloat? text).filter (·.isFinite) <;> rfl
  refine ⟨fun h => ⟨hnone h, ?_⟩, fun text htext => ?_⟩
  · rw [hresult, hround, h]
    rfl
  · obtain ⟨d, hread, hfloat, hnear⟩ := hsome text htext
    refine ⟨d, hread, hnear, ?_⟩
    rw [hresult, hround, htext, Option.elim_some, hfloat]
    cases hfinite : d.toFloat.isFinite <;> simp [Option.filter, hfinite]

/-- A tie at 999.5 carries through all digits and lengthens the whole part. -/
theorem round_exact_carry :
    floatParts? ⟨0x408F3C0000000000⟩ = some ⟨false, 8791694975696896, -43⟩ ∧
    (Value.int 0).int? = some 0 ∧ -308 ≤ (0 : Int64).toInt ∧ (0 : Int64).toInt ≤ 308 ∧
    Builtin.round.run (callValue 1 0) 0 (.ofList [.float ⟨0x408F3C0000000000⟩, .int 0]) .empty =
      .ok (.float ⟨0x408F400000000000⟩) .empty := by
  have hparts : floatParts? ⟨0x408F3C0000000000⟩ = some ⟨false, 8791694975696896, -43⟩ := by
    decide +kernel
  have hzero : (Value.int 0).int? = some 0 := rfl
  have hrange : -308 ≤ (0 : Int64).toInt ∧ (0 : Int64).toInt ≤ 308 := by decide
  have htext : FloatParts.roundedText? ⟨false, 8791694975696896, -43⟩ (0 : Int64).toInt =
      some ['1', '0', '0', '0', '.'] := by
    decide +kernel
  obtain ⟨d, hread, -, hrun⟩ :=
    (round_exact hparts hzero hrange.1 hrange.2 (callValue 1 0) 0 .empty).2 _ htext
  obtain rfl : (⟨1000, 0⟩ : Scientific) = d := Option.some.inj hread
  have hfinite : (Scientific.toFloat ⟨1000, 0⟩).isFinite = true := by decide +kernel
  have hbits : (Scientific.toFloat ⟨1000, 0⟩).bits = 0x408F400000000000 := by decide +kernel
  rw [if_pos hfinite] at hrun
  refine ⟨hparts, hzero, hrange.1, hrange.2, hrun.trans ?_⟩
  show EStateM.Result.ok (Value.float (Scientific.toFloat ⟨1000, 0⟩)) _ = _
  rw [show Scientific.toFloat ⟨1000, 0⟩ = ⟨0x408F400000000000⟩ from congrArg Double.mk hbits]

end ExprLang
