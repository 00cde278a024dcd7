import ExprLang.Decimal.Binary
import Mathlib

/-!
# The words of doubles

A double is its word, while arithmetic unpacks words into a sign, a mantissa and an exponent. The
fields that are unpacked are those that the parts of a finite double are read off, so the parts are
what is unpacked (`floatParts?_eq_unpackedParts?`), and what is packed with 53 bits has the parts
that it was packed from (`floatParts?_pack`). As a word of the processor there is one NaN only
(`Double.toFloat_eq_nan_iff`); any other double stays the word that it is (`unpack_toFloat`).
-/

namespace ExprLang

open Float.Model Float.Model.UnpackedFloat

/-! ## Fields -/

theorem toNat_unpackExponent (b : BitVec 64) :
    (@unpackExponent .binary64 b).toNat = b.toNat / 2 ^ 52 % 2 ^ 11 := by
  rw [unpackExponent_def]
  show (b.extractLsb' 52 11).toNat = _
  rw [BitVec.extractLsb'_toNat, Nat.shiftRight_eq_div_pow]

theorem toNat_unpackMantissa (b : BitVec 64) :
    (@unpackMantissa .binary64 b).toNat = b.toNat % 2 ^ 52 := by
  rw [unpackMantissa_def]
  show (b.extractLsb' 0 52).toNat = _
  rw [BitVec.extractLsb'_toNat]
  rfl

theorem toNat_unpackSign (b : BitVec 64) :
    (@unpackSign .binary64 b).toNat = b.toNat / 2 ^ 63 := by
  have hlt := b.isLt
  rw [unpackSign_def]
  show (b.extractLsb' 63 1).toNat = _
  rw [BitVec.extractLsb'_toNat, Nat.shiftRight_eq_div_pow]
  omega

theorem isNegative_eq (x : Double) :
    x.isNegative = (Sign.ofBitVec (@unpackSign .binary64 x.bits.toBitVec) == .negative) := by
  have hlt := x.bits.toNat_lt
  have hclear : @unpackSign .binary64 x.bits.toBitVec = 0#1 ↔ ¬Nat.pow 2 63 ≤ x.bits.toNat := by
    rw [← BitVec.toNat_inj, toNat_unpackSign, UInt64.toNat_toBitVec]
    show _ = 0 ↔ ¬2 ^ 63 ≤ _
    omega
  unfold Double.isNegative Sign.ofBitVec
  by_cases h : Nat.pow 2 63 ≤ x.bits.toNat
  · rw [decide_eq_true h, if_neg (by simpa [hclear] using h)]
    rfl
  · rw [decide_eq_false h, if_pos (hclear.2 h)]
    rfl

/-! ## NaNs -/

theorem toBits_nan : Float.nan.toBits.toBitVec = packedNaN .binary64 := by
  have hnan : Float.nan.isNaN = true := Float.isNaN_eq_decide_eq_nan.trans (decide_eq_true rfl)
  exact (isNaN_unpack_iff_of_valid Float.nan.toModel.valid).1 hnan

/-- Whatever bits are those of a NaN, as a word of the processor it is the one NaN there is. -/
theorem Double.toFloat_eq_nan_iff (x : Double) :
    x.toFloat = Float.nan ↔ @isNaNBits .binary64 x.bits.toBitVec = true := by
  have hbits := @pack_unpack .binary64 x.bits.toBitVec (by decide)
  have hword : x.toFloat.toBits.toBitVec = _ := hbits
  rw [← Float.toBits_inj, ← UInt64.toBitVec_inj, hword, toBits_nan]
  split
  · simp [*]
  · next hnumber =>
    refine iff_of_false (fun heq => hnumber ?_) hnumber
    rw [heq]
    exact isNaNBits_packedNaN

theorem isNaNBits_iff (b : BitVec 64) : @isNaNBits .binary64 b = true ↔
    b.toNat / 2 ^ 52 % 2 ^ 11 = 2047 ∧ b.toNat % 2 ^ 52 ≠ 0 := by
  have hexponent : @unpackExponent .binary64 b = -1#_ ↔ b.toNat / 2 ^ 52 % 2 ^ 11 = 2047 := by
    rw [← BitVec.toNat_inj, toNat_unpackExponent]
    rfl
  have hfraction : @unpackMantissa .binary64 b = 0#_ ↔ b.toNat % 2 ^ 52 = 0 := by
    rw [← BitVec.toNat_inj, toNat_unpackMantissa]
    rfl
  unfold isNaNBits
  rw [decide_eq_true_iff, hexponent, Ne, hfraction]

/-- A NaN has the greatest exponent and a fraction. -/
theorem Double.isNaN_iff (x : Double) : x.isNaN = true ↔
    x.bits.toNat / 2 ^ 52 % 2 ^ 11 = 2047 ∧ x.bits.toNat % 2 ^ 52 ≠ 0 := by
  have habs : x.abs.bits.toNat = x.bits.toNat % 2 ^ 63 := by
    show (x.bits &&& 0x7FFFFFFFFFFFFFFF).toNat = _
    rw [UInt64.toNat_and]
    exact Nat.and_two_pow_sub_one_eq_mod _ 63
  have hlt := x.bits.toNat_lt
  unfold isNaN
  rw [decide_eq_true_iff, UInt64.lt_iff_toNat_lt, habs]
  show 0x7FF0000000000000 < _ ↔ _
  omega

theorem Double.isNaN_eq_isNaNBits (x : Double) :
    x.isNaN = @isNaNBits .binary64 x.bits.toBitVec := by
  rw [Bool.eq_iff_iff, isNaN_iff, isNaNBits_iff, UInt64.toNat_toBitVec]

/-! ## Parts -/

/-- The parts of a double are read off its fields. -/
theorem floatParts?_eq (x : Double) : floatParts? x =
    if @unpackExponent .binary64 x.bits.toBitVec = -1#_ then none
    else if @unpackExponent .binary64 x.bits.toBitVec = 0#_ then
      some ⟨Sign.ofBitVec (@unpackSign .binary64 x.bits.toBitVec) == .negative,
        (@unpackMantissa .binary64 x.bits.toBitVec).toNat, -1074⟩
    else
      some ⟨Sign.ofBitVec (@unpackSign .binary64 x.bits.toBitVec) == .negative,
        2 ^ 52 + (@unpackMantissa .binary64 x.bits.toBitVec).toNat,
        (@unpackExponent .binary64 x.bits.toBitVec).toNat - 1075⟩ := by
  rw [← isNegative_eq]
  simp only [← BitVec.toNat_inj, toNat_unpackExponent, toNat_unpackMantissa, UInt64.toNat_toBitVec]
  rfl

/-- The parts of an unpacked double. -/
def unpackedParts? : UnpackedFloat → Option FloatParts
  | .zero s => some ⟨s == .negative, 0, -1074⟩
  | .finite s m e _ => some ⟨s == .negative, m, e⟩
  | .infinity _ | .notANumber => none

/-- The parts of a float are those that its bits are unpacked into. -/
theorem floatParts?_eq_unpackedParts? (x : Double) :
    floatParts? x = unpackedParts? (UnpackedFloat.unpack .binary64 x.bits.toBitVec) := by
  rw [floatParts?_eq]
  fun_cases UnpackedFloat.unpack with
  | case1 mantissa exponent sign s hmax hzero =>
    rw [if_pos hmax]
    rfl
  | case2 mantissa exponent hmax hnan =>
    rw [if_pos hmax]
    rfl
  | case3 mantissa exponent sign s hmax hmin hzero =>
    rw [if_neg hmax, if_pos hmin,
      show (@unpackMantissa .binary64 x.bits.toBitVec).toNat = 0 from congrArg BitVec.toNat hzero]
    rfl
  | case4 mantissa exponent e sign s hmax hmin hsubnormal =>
    have he : e + 1 = -1074 := by
      show (exponent.toNat : ℤ) - 1075 + 1 = _
      rw [hmin]
      rfl
    rw [if_neg hmax, if_pos hmin, he]
    rfl
  | case5 mantissa exponent e sign s hmax hmin =>
    have himplicit : (1#1 ++ mantissa).toNat = 2 ^ 52 + mantissa.toNat := by
      rw [BitVec.toNat_append, ← Nat.shiftLeft_add_eq_or_of_lt mantissa.isLt]
      rfl
    rw [if_neg hmax, if_neg hmin]
    show _ = some (FloatParts.mk (s == .negative) (1#1 ++ mantissa).toNat e)
    rw [himplicit]
    rfl

/-- A double whose mantissa is not zero is unpacked to its parts. -/
theorem unpack_of_floatParts? {x : Double} {p : FloatParts} (h : floatParts? x = some p)
    (hp : p.mantissa ≠ 0) : ∃ s hpos, (s == Sign.negative) = p.negative ∧
      UnpackedFloat.unpack .binary64 x.bits.toBitVec = .finite s p.mantissa p.exponent hpos := by
  rw [floatParts?_eq_unpackedParts?] at h
  cases hunpack : UnpackedFloat.unpack .binary64 x.bits.toBitVec with
  | zero s =>
    rw [hunpack] at h
    obtain rfl := Option.some.inj h
    contradiction
  | finite s m e hpos =>
    rw [hunpack] at h
    obtain rfl := Option.some.inj h
    exact ⟨s, hpos, rfl, rfl⟩
  | infinity s =>
    rw [hunpack] at h
    contradiction
  | notANumber =>
    rw [hunpack] at h
    contradiction

/-- The parts of a word that is put together from its fields. -/
theorem floatParts?_fields (negative : Bool) {field fraction : ℕ} (hlow : 0 < field)
    (hhigh : field < 2047) (hfraction : fraction < 2 ^ 52) :
    floatParts? ⟨UInt64.ofNat ((if negative then Nat.pow 2 63 else 0) +
      (field * Nat.pow 2 52 + fraction))⟩ =
      some ⟨negative, 2 ^ 52 + fraction, field - 1075⟩ := by
  have hword : (UInt64.ofNat ((if negative then Nat.pow 2 63 else 0) +
      (field * Nat.pow 2 52 + fraction))).toNat =
      (if negative then 2 ^ 63 else 0) + (field * 2 ^ 52 + fraction) := by
    rw [UInt64.toNat_ofNat']
    refine Nat.mod_eq_of_lt ?_
    show (if negative then 2 ^ 63 else 0) + (field * 2 ^ 52 + fraction) < 2 ^ 64
    split <;> omega
  have hsign : Double.isNegative ⟨UInt64.ofNat ((if negative then Nat.pow 2 63 else 0) +
      (field * Nat.pow 2 52 + fraction))⟩ = negative := by
    unfold Double.isNegative
    rw [hword]
    show decide (2 ^ 63 ≤ _) = _
    cases negative
    · simp
      omega
    · simp
  have hfield : ((if negative then 2 ^ 63 else 0) + (field * 2 ^ 52 + fraction)) / 2 ^ 52 %
      2 ^ 11 = field := by
    split <;> omega
  have hrest : ((if negative then 2 ^ 63 else 0) + (field * 2 ^ 52 + fraction)) % 2 ^ 52 =
      fraction := by
    split <;> omega
  unfold floatParts?
  rw [hsign, hword]
  show (if _ / 2 ^ 52 % 2 ^ 11 = 2047 then none else if _ / 2 ^ 52 % 2 ^ 11 = 0 then _ else
    some (FloatParts.mk negative (2 ^ 52 + _ % 2 ^ 52) ((_ / 2 ^ 52 % 2 ^ 11 : ℕ) - 1075))) = _
  rw [hfield, hrest, if_neg (by omega), if_neg (by omega)]

/-- A number with 53 bits is packed into a double that has its parts. -/
theorem floatParts?_pack {s : Sign} {m : ℕ} {e : ℤ} (hpos : 0 < m) (hlow : 2 ^ 52 ≤ m)
    (hhigh : m < 2 ^ 53) (hmin : -1074 ≤ e) (hmax : e ≤ 971) :
    floatParts? ⟨⟨UnpackedFloat.pack .binary64 (.finite s m e hpos)⟩⟩ =
      some ⟨s == .negative, m, e⟩ := by
  have hlog : m.log2 = 52 := (Nat.log2_eq_iff hpos.ne').2 ⟨hlow, hhigh⟩
  have hpack : UnpackedFloat.pack .binary64 (.finite s m e hpos) =
      packComponents .binary64 s (BitVec.ofNat 11 (e + 1075).toNat) (BitVec.ofNat 52 m) := by
    have hbiased : e + (Format.binary64.exponentBias : ℤ) +
        (Format.binary64.mantissaBitsWithoutImplicit : ℤ) = e + 1075 := by
      show e + 1023 + 52 = _
      ring
    unfold UnpackedFloat.pack
    rw [hbiased, hlog, if_neg (show ¬2 ^ 11 ≤ (e + 1075).toNat + 1 by omega),
      if_pos (show 52 + 1 = Format.binary64.mantissaBits from rfl)]
  have hexponent : (BitVec.ofNat 11 (e + 1075).toNat).toNat = (e + 1075).toNat := by
    rw [BitVec.toNat_ofNat]
    omega
  have hmantissa : (BitVec.ofNat 52 m).toNat = m - 2 ^ 52 := by
    rw [BitVec.toNat_ofNat]
    omega
  have hnotMax : BitVec.ofNat 11 (e + 1075).toNat ≠ -1#11 := fun h => by
    have heq : (e + 1075).toNat = 2047 := hexponent.symm.trans (congrArg BitVec.toNat h)
    omega
  have hnotMin : BitVec.ofNat 11 (e + 1075).toNat ≠ 0#11 := fun h => by
    have heq : (e + 1075).toNat = 0 := hexponent.symm.trans (congrArg BitVec.toNat h)
    omega
  rw [floatParts?_eq]
  simp only [hpack, unpackExponent_packComponents, unpackMantissa_packComponents,
    unpackSign_packComponents, Sign.ofBitVec_toBitVec]
  rw [if_neg hnotMax, if_neg hnotMin, hmantissa, hexponent,
    show 2 ^ 52 + (m - 2 ^ 52) = m by omega, show ((e + 1075).toNat : ℤ) - 1075 = e by omega]

/-! ## Operations -/

/-- What has parts is no NaN. -/
theorem isNaN_of_floatParts? {x : Double} {p : FloatParts} (h : floatParts? x = some p) :
    x.isNaN = false := by
  rw [Double.isNaN_eq_isNaNBits]
  by_contra hnan
  rw [Bool.not_eq_false, isNaNBits, decide_eq_true_iff] at hnan
  rw [floatParts?_eq, if_pos hnan.1] at h
  contradiction

/-- Any double but a NaN is the word that it stands for. -/
theorem unpack_toFloat {x : Double} (h : x.isNaN = false) :
    x.toFloat.toModel.unpack = UnpackedFloat.unpack .binary64 x.bits.toBitVec := by
  have hbits : x.toFloat.toModel.toBits.toBitVec = _ :=
    @pack_unpack .binary64 x.bits.toBitVec (by decide)
  rw [← Double.isNaN_eq_isNaNBits, h, if_neg Bool.false_ne_true] at hbits
  unfold Float.Model.unpack
  rw [hbits]

/-- A result that is finite has its own parts. -/
theorem floatParts?_ofResult {x : Float} {p : FloatParts} (h : floatParts? ⟨x.toBits⟩ = some p) :
    floatParts? (.ofResult x) = some p := by
  have hnumber : ¬x.isNaN = true := by
    rw [Float.isNaN_eq_decide_eq_nan, decide_eq_true_iff]
    rintro rfl
    rw [floatParts?_eq, toBits_nan, if_pos (by simp [packedNaN])] at h
    contradiction
  rw [Double.ofResult, if_neg hnumber, h]

/-- The parts of a quotient are those of the unpacked quotient. -/
theorem floatParts?_div {x y : Double} {p : FloatParts} (hx : x.isNaN = false)
    (hy : y.isNaN = false)
    (h : floatParts? ⟨⟨UnpackedFloat.pack .binary64 (UnpackedFloat.div .binary64
      (UnpackedFloat.unpack .binary64 x.bits.toBitVec)
      (UnpackedFloat.unpack .binary64 y.bits.toBitVec))⟩⟩ = some p) :
    floatParts? (x / y) = some p := by
  rw [← unpack_toFloat hx, ← unpack_toFloat hy] at h
  have hzip : x / y = .ofResult (x.toFloat / y.toFloat) := by
    show Double.zip _ x y = _
    unfold Double.zip
    rw [hx, hy]
    rfl
  rw [hzip]
  exact floatParts?_ofResult h

end ExprLang
