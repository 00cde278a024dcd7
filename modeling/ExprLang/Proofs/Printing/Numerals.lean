import ExprLang.Proofs.Printing.Lexing

/-!
# Numerals of integer literals

The decimal numeral of a number that fits in a word is an integer literal of that value
(`integerValue_repr`) : its digits are read back one by one (`readDigits_digits`), none of them is
taken for the mark of a base, and it has no zero in front (`head?_toDigits`).
-/

namespace ExprLang

open ExprLang.Parser

/-- A decimal digit is read as its place behind `0`. -/
theorem digitValue?_digit {c : Char} (h : c.isDigit = true) :
    digitValue? 10 c = some (c.toNat - 48) := by
  have table : ∀ n < 128, (Char.ofNat n).isDigit = true →
      digitValue? 10 (Char.ofNat n) = some ((Char.ofNat n).toNat - 48) := by
    decide
  have hc := table c.toNat (isDigit_ascii h)
  rw [Char.ofNat_toNat] at hc
  exact hc h

/-- More digits make no smaller number. -/
theorem le_ofDigitChars (cs : List Char) (value : Nat) : value ≤ Nat.ofDigitChars 10 cs value := by
  induction cs generalizing value with
  | nil => simp
  | cons c cs ih =>
    rw [Nat.ofDigitChars_cons]
    exact Nat.le_trans (by omega) (ih _)

/-- Digits are read as their number, if it is within the limit. -/
theorem readDigits_digits {limit value : Nat} {cs : List Char}
    (h : ∀ c ∈ cs, c.isDigit = true) (hlimit : Nat.ofDigitChars 10 cs value ≤ limit) :
    readDigits 10 limit value cs = .ok (Nat.ofDigitChars 10 cs value) := by
  induction cs generalizing value with
  | nil => simp [readDigits]
  | cons c cs ih =>
    rw [Nat.ofDigitChars_cons] at hlimit ⊢
    have hvalue : value * 10 + (c.toNat - 48) = 10 * value + (c.toNat - '0'.toNat) := by
      have : '0'.toNat = 48 := rfl
      omega
    have hle : value * 10 + (c.toNat - 48) ≤ limit := by
      rw [hvalue]
      exact Nat.le_trans (le_ofDigitChars cs _) hlimit
    simp only [readDigits, digitValue?_digit (h c (by simp)), hle, ↓reduceIte]
    rw [hvalue]
    exact ih (fun d hd => h d (List.mem_cons_of_mem _ hd)) hlimit

theorem isDigit_of_mem_toDigits {n : Nat} : ∀ c ∈ Nat.toDigits 10 n, c.isDigit = true :=
  fun _ hc => Nat.isDigit_of_mem_toDigits (by decide) (by decide) hc

/-- Only zero has a leading zero. -/
theorem head?_toDigits {n : Nat} (hn : 0 < n) : (Nat.toDigits 10 n).head? ≠ some '0' := by
  induction n using Nat.strongRecOn with
  | ind n ih =>
    by_cases hlt : n < 10
    · rw [Nat.toDigits_of_lt_base hlt]
      have table : ∀ m < 10, 0 < m → [m.digitChar].head? ≠ some '0' := by decide
      exact table n hlt hn
    · have hhead := ih (n / 10) (by omega) (by omega)
      obtain ⟨c, cs, hcs⟩ := List.exists_cons_of_ne_nil (@Nat.toDigits_ne_nil (n / 10) 10)
      rw [hcs] at hhead
      rw [Nat.toDigits_of_base_le (by decide) (Nat.le_of_not_lt hlt), hcs]
      exact hhead

/-- Digits are read as their number, if there are any. -/
theorem readNat_digits {limit : Nat} {cs : List Char} (hne : cs ≠ [])
    (h : ∀ c ∈ cs, c.isDigit = true) (hlimit : Nat.ofDigitChars 10 cs 0 ≤ limit) :
    readNat 10 limit cs = .ok (Nat.ofDigitChars 10 cs 0) := by
  have hread := readDigits_digits h hlimit
  unfold readNat
  split
  · exact absurd rfl hne
  · have := h '+' (by simp)
    exact absurd this (by decide)
  · exact hread

/-- A decimal numeral is read in base ten, whatever its first two digits are. -/
theorem integerValue_digits {text : String} (hne : text.toList ≠ [])
    (h : ∀ c ∈ text.toList, c.isDigit = true)
    (hzero : text.toList.head? = some '0' → ∀ c ∈ text.toList, c = '0')
    (hlimit : Nat.ofDigitChars 10 text.toList 0 ≤ maxInteger) :
    integerValue text = .ok (Int64.ofNat (Nat.ofDigitChars 10 text.toList 0)) := by
  have hfilter : text.toList.filter (· != '_') = text.toList := by
    rw [List.filter_eq_self]
    intro c hc
    simp only [bne_iff_ne, ne_eq]
    rintro rfl
    exact absurd (h '_' hc) (by decide)
  have hidle : (text.toList.head? == some '0' && text.toList.any (· != '0')) = false := by
    cases hhead : text.toList.head? == some '0' with
    | false => rfl
    | true =>
      have hall := hzero (by simpa using hhead)
      simpa using hall
  have hread := readNat_digits hne h hlimit
  unfold integerValue
  rw [hfilter]
  dsimp only
  split
  · next mark rest hcs =>
    have hmark : ∀ d, d.isDigit = false → mark ≠ d := by
      rintro d hd rfl
      simp [h mark (by simp [hcs])] at hd
    simp only [hmark 'x' rfl, hmark 'X' rfl, hmark 'o' rfl, hmark 'O' rfl, hmark 'b' rfl,
      hmark 'B' rfl, or_self, ↓reduceIte, hread]
    simp [hidle]
  · simp only [hread]
    simp [hidle]

/-- A decimal numeral is the literal of its value. -/
theorem integerValue_repr {n : Nat} (hn : n ≤ maxInteger) :
    integerValue (Nat.repr n) = .ok (Int64.ofNat n) := by
  have hvalue : Nat.ofDigitChars 10 (Nat.toDigits 10 n) 0 = n := Nat.ofDigitChars_ten_toDigits
  have hread := @integerValue_digits (Nat.repr n)
  rw [Nat.toList_repr, hvalue] at hread
  refine hread Nat.toDigits_ne_nil isDigit_of_mem_toDigits (fun hzero => ?_) hn
  rcases Nat.eq_zero_or_pos n with rfl | hpos
  · rw [Nat.toDigits_of_lt_base (by decide)]
    exact fun c hc => List.mem_singleton.1 hc
  · exact absurd hzero (head?_toDigits hpos)

end ExprLang
