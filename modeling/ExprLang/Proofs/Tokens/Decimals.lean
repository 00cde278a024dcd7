import ExprLang.Proofs.Printing.Numerals

/-!
# Decimal numbers

A decimal number is cut in three steps, and each of them may stop early: its digits, a fraction and
an exponent (`Numeral`). Where all three stop, the number is cut off as it is spelt
(`Numeral.scanDecimal_append`). A decimal integer is one without the two other parts
(`lex_integer`).
-/

namespace ExprLang

variable {rest : List Char}

/-! ## Parts of decimal numbers -/

/-- A fraction: nothing, or a point and digits. -/
inductive IsFraction : List Char → Prop
  | none : IsFraction []
  | point {digits : List Char} : (∀ c ∈ digits, isDigitOrLow c = true) → IsFraction ('.' :: digits)

/-- An exponent: nothing, or a mark, perhaps a sign, and digits. -/
inductive IsExponent : List Char → Prop
  | none : IsExponent []
  | marked {mark d : Char} {sign digits : List Char} : mark = 'e' ∨ mark = 'E' →
    sign = [] ∨ sign = ['+'] ∨ sign = ['-'] → d.isDigit = true →
    (∀ c ∈ digits, isDigitOrLow c = true) → IsExponent (mark :: (sign ++ d :: digits))

/-- What is scanned as a fraction is one. -/
theorem scanFraction_isFraction (cs : List Char) : IsFraction (scanFraction cs).1 := by
  unfold scanFraction
  split
  · exact .none
  · split
    · next hc =>
      subst hc
      exact .point fun _ hd => List.all_eq_true.1 List.all_takeWhile _ hd
    · exact .none

/-- What is scanned as a sign is one, or nothing. -/
theorem scanSign_isSign (cs : List Char) :
    (scanSign cs).1 = [] ∨ (scanSign cs).1 = ['+'] ∨ (scanSign cs).1 = ['-'] := by
  unfold scanSign
  split
  · exact .inl rfl
  · split
    · next hc => rcases hc with rfl | rfl <;> simp
    · exact .inl rfl

/-- What is scanned as an exponent is one. -/
theorem scanExponent_isExponent (cs : List Char) : IsExponent (scanExponent cs).1 := by
  unfold scanExponent
  split
  · exact .none
  · next mark r =>
    simp only
    split
    · next h =>
      obtain ⟨hmark, hdigit⟩ := h
      cases hdigits : (scanSign r).2 with
      | nil => simp [hdigits] at hdigit
      | cons d ds =>
        have hd : d.isDigit = true := by simpa [hdigits] using hdigit
        have hlow : isDigitOrLow d = true := by simp [isDigitOrLow, hd]
        rw [List.takeWhile_cons_of_pos hlow]
        exact .marked hmark (scanSign_isSign r) hd fun _ hc =>
          List.all_eq_true.1 List.all_takeWhile _ hc
    · exact .none

/-- Where the digits of a number end, and neither a fraction nor an exponent begins. -/
structure EndsDecimal (rest : List Char) : Prop where
  digit : ∀ c ∈ rest.head?, isDigitOrLow c = false
  point : ∀ c ∈ rest.head?, c ≠ '.'
  mark : ∀ c ∈ rest.head?, c ≠ 'e' ∧ c ≠ 'E'

/-- What ends an integer ends a decimal. -/
theorem EndsDecimal.of_endsInt (h : ∀ c ∈ rest.head?, endsInt c = true) : EndsDecimal rest where
  digit c hc := isDigitOrLow_eq_false (isNameContinue_of_endsInt (h c hc))
  point c hc := endsInt_ne (h c hc) (by decide)
  mark c hc := ⟨endsInt_ne (h c hc) (by decide), endsInt_ne (h c hc) (by decide)⟩

/-- A decimal ends at the letter of imaginary numbers. -/
theorem EndsDecimal.letter (rest : List Char) : EndsDecimal ('j' :: rest) where
  digit := by rintro c ⟨⟩; decide
  point := by rintro c ⟨⟩; decide
  mark := by rintro c ⟨⟩; decide

theorem IsFraction.scan {fraction : List Char} (h : IsFraction fraction)
    (hdigit : ∀ c ∈ rest.head?, isDigitOrLow c = false) (hpoint : ∀ c ∈ rest.head?, c ≠ '.') :
    scanFraction (fraction ++ rest) = (fraction, rest) := by
  cases h with
  | none =>
    cases rest with
    | nil => rfl
    | cons c rest => simp [scanFraction, hpoint c rfl]
  | point hdigits =>
    simp [scanFraction, takeWhile_append_stop hdigits hdigit, dropWhile_append_stop hdigits hdigit]

/-- A sign is scanned, if there is one. -/
theorem scanSign_signed {sign : List Char} {d : Char}
    (hsign : sign = [] ∨ sign = ['+'] ∨ sign = ['-']) (hd : d.isDigit = true) (rest : List Char) :
    scanSign (sign ++ d :: rest) = (sign, d :: rest) := by
  have hplus : d ≠ '+' := by
    rintro rfl
    exact absurd hd (by decide)
  have hminus : d ≠ '-' := by
    rintro rfl
    exact absurd hd (by decide)
  rcases hsign with rfl | rfl | rfl <;> simp [scanSign, hplus, hminus]

theorem IsExponent.scan {exponent : List Char} (h : IsExponent exponent)
    (hdigit : ∀ c ∈ rest.head?, isDigitOrLow c = false)
    (hmark : ∀ c ∈ rest.head?, c ≠ 'e' ∧ c ≠ 'E') :
    scanExponent (exponent ++ rest) = (exponent, rest) := by
  cases h with
  | none =>
    cases rest with
    | nil => rfl
    | cons c rest =>
      obtain ⟨he, hE⟩ := hmark c rfl
      simp [scanExponent, he, hE]
  | @marked mark d sign digits hmark hsign hd hdigits =>
    have hlow : ∀ c ∈ d :: digits, isDigitOrLow c = true := by
      simp only [List.forall_mem_cons]
      exact ⟨by simp [isDigitOrLow, hd], hdigits⟩
    have htake := takeWhile_append_stop hlow hdigit
    have hdrop := dropWhile_append_stop hlow hdigit
    rw [List.cons_append] at htake hdrop
    simp [scanExponent, scanSign_signed hsign hd, hmark, hd, htake, hdrop]

/-- A fraction begins with its point. -/
theorem IsFraction.head? {fraction : List Char} (h : IsFraction fraction) :
    ∀ c ∈ fraction.head?, c = '.' := by
  cases h <;> simp

/-- An exponent begins with its mark. -/
theorem IsExponent.head? {exponent : List Char} (h : IsExponent exponent) :
    ∀ c ∈ exponent.head?, c = 'e' ∨ c = 'E' := by
  cases h with
  | none => simp
  | marked hmark => simpa using hmark

/-- A decimal number in its parts. -/
structure Numeral where
  whole : List Char
  fraction : List Char
  exponent : List Char
  isDigitOrLow_whole : ∀ c ∈ whole, isDigitOrLow c = true
  isFraction : IsFraction fraction
  isExponent : IsExponent exponent

namespace Numeral

/-- The number at the start of a text. -/
def ofText (cs : List Char) : Numeral where
  whole := cs.takeWhile isDigitOrLow
  fraction := (scanFraction (cs.dropWhile isDigitOrLow)).1
  exponent := (scanExponent (scanFraction (cs.dropWhile isDigitOrLow)).2).1
  isDigitOrLow_whole _ hc := List.all_eq_true.1 List.all_takeWhile _ hc
  isFraction := scanFraction_isFraction _
  isExponent := scanExponent_isExponent _

/-- How a number is spelt. -/
def text (n : Numeral) : List Char :=
  n.whole ++ (n.fraction ++ n.exponent)

/-- The token a number is by itself. -/
def token (n : Numeral) : Token :=
  if n.fraction.isEmpty && n.exponent.isEmpty then .int (String.ofList n.text)
  else .float (String.ofList n.text)

/-- The token of a numeral has its text. -/
theorem text_token (n : Numeral) : n.token.text = String.ofList n.text := by
  unfold token
  split <;> rfl

/-- The numeral of a text begins the text. -/
theorem text_ofText_prefix (cs : List Char) : (ofText cs).text <+: cs := by
  refine ⟨(scanExponent (scanFraction (cs.dropWhile isDigitOrLow)).2).2, ?_⟩
  have hexponent := scanExponent_append (scanFraction (cs.dropWhile isDigitOrLow)).2
  have hfraction := scanFraction_append (cs.dropWhile isDigitOrLow)
  have hwhole := List.takeWhile_append_dropWhile (p := isDigitOrLow) (l := cs)
  simp only [text, ofText, List.append_assoc]
  rw [hexponent, hfraction, hwhole]

/-- What is cut off a text is its number, perhaps with a letter behind it. -/
theorem token_scanDecimal (cs : List Char) :
    (scanDecimal cs).token = (ofText cs).token ∨
      (scanDecimal cs).token = .imaginary (String.ofList (ofText cs).text) := by
  simp only [scanDecimal]
  split
  · exact .inl rfl
  · split
    · exact .inr rfl
    · exact .inl rfl

/-- The three steps of cutting a number, where it ends. -/
theorem scan_parts (n : Numeral) (h : EndsDecimal rest) :
    (n.text ++ rest).takeWhile isDigitOrLow = n.whole ∧
      scanFraction ((n.text ++ rest).dropWhile isDigitOrLow) = (n.fraction, n.exponent ++ rest) ∧
      scanExponent (n.exponent ++ rest) = (n.exponent, rest) := by
  have hexponent : ∀ c ∈ (n.exponent ++ rest).head?, isDigitOrLow c = false ∧ c ≠ '.' := by
    intro c hc
    cases hx : n.exponent with
    | nil =>
      rw [hx] at hc
      exact ⟨h.digit c hc, h.point c hc⟩
    | cons d ds =>
      obtain rfl : d = c := by simpa [hx] using hc
      rcases n.isExponent.head? d (by simp [hx]) with rfl | rfl <;> decide
  have hfraction : ∀ c ∈ (n.fraction ++ (n.exponent ++ rest)).head?, isDigitOrLow c = false := by
    intro c hc
    cases hf : n.fraction with
    | nil =>
      rw [hf] at hc
      exact (hexponent c hc).1
    | cons d ds =>
      obtain rfl : d = c := by simpa [hf] using hc
      obtain rfl := n.isFraction.head? d (by simp [hf])
      decide
  have happ : n.text ++ rest = n.whole ++ (n.fraction ++ (n.exponent ++ rest)) := by
    simp [text]
  rw [happ, takeWhile_append_stop n.isDigitOrLow_whole hfraction,
    dropWhile_append_stop n.isDigitOrLow_whole hfraction,
    n.isFraction.scan (fun c hc => (hexponent c hc).1) (fun c hc => (hexponent c hc).2)]
  exact ⟨rfl, rfl, n.isExponent.scan h.digit h.mark⟩

theorem scanDecimal_append (n : Numeral) (h : ∀ c ∈ rest.head?, endsInt c = true) :
    scanDecimal (n.text ++ rest) = ⟨n.text, n.token, rest⟩ := by
  obtain ⟨hwhole, hfraction, hexponent⟩ := n.scan_parts (.of_endsInt h)
  simp only [scanDecimal, hwhole, hfraction, hexponent]
  cases rest with
  | nil => rfl
  | cons c rest =>
    have hj : c ≠ 'j' := endsInt_ne (h c rfl) (by decide)
    have hJ : c ≠ 'J' := endsInt_ne (h c rfl) (by decide)
    simp only [hj, hJ, or_self, if_false]
    rfl

/-- A numeral is scanned with its letter. -/
theorem scanDecimal_append_letter (n : Numeral) (rest : List Char) :
    scanDecimal (n.text ++ 'j' :: rest)
      = ⟨n.text ++ ['j'], .imaginary (String.ofList n.text), rest⟩ := by
  obtain ⟨hwhole, hfraction, hexponent⟩ := n.scan_parts (.letter rest)
  simp only [scanDecimal, hwhole, hfraction, hexponent]
  rfl

/-- A number begins as the text does at whose start it is. -/
theorem text_ofText_cons {c : Char} {cs : List Char} (h : startsNumber c cs = true) :
    ∃ ds, (ofText (c :: cs)).text = c :: ds ∧ startsNumber c ds = true := by
  by_cases hc : isDigitOrLow c = true
  · have hdigit : c.isDigit = true := by
      have hdot : c ≠ '.' := by
        rintro rfl
        exact absurd hc (by decide)
      simpa [startsNumber, hdot] using h
    refine ⟨_, by simp [text, ofText, hc]; rfl, by simp [startsNumber, hdigit]⟩
  · have hdigit : c.isDigit = false := by
      cases hd : c.isDigit with
      | false => rfl
      | true => simp [isDigitOrLow, hd] at hc
    obtain ⟨hdot, hnext⟩ : c = '.' ∧ (cs.head?).any Char.isDigit = true := by
      simpa [startsNumber, hdigit] using h
    subst hdot
    cases cs with
    | nil => simp at hnext
    | cons d ds =>
      have hd : d.isDigit = true := by simpa using hnext
      have hlow : isDigitOrLow d = true := by simp [isDigitOrLow, hd]
      refine ⟨_, by simp [text, ofText, scanFraction, hc]; rfl, ?_⟩
      simp [startsNumber, hlow, hd]

end Numeral

/-! ## Numbers in a text -/

/-- Whether a text begins with a zero and the mark of a base. -/
def StartsRadix (cs : List Char) : Prop :=
  ∃ mark more, cs = '0' :: mark :: more ∧ isRadixMark mark = true

/-- Without a mark for its base a number is decimal. -/
theorem scanNumber_of_not_startsRadix {cs : List Char} (h : ¬StartsRadix cs) :
    scanNumber cs = scanDecimal cs := by
  unfold scanNumber
  split
  · next zero mark more =>
    rw [if_neg]
    rintro ⟨rfl, hmark⟩
    exact h ⟨mark, more, rfl, hmark⟩
  · rfl

/-- A text that goes on differently begins with no mark of a base either. -/
theorem not_startsRadix_append {text cs : List Char} (hne : text ≠ []) (hbegins : text <+: cs)
    (h : ¬StartsRadix cs) (hrest : ∀ c ∈ rest.head?, isRadixMark c = false) :
    ¬StartsRadix (text ++ rest) := by
  rintro ⟨mark, more, heq, hmark⟩
  match text with
  | [c] =>
    obtain ⟨-, rfl⟩ := List.cons.inj heq
    simp [hrest mark rfl] at hmark
  | c :: d :: text =>
    obtain ⟨rfl, htail⟩ := List.cons.inj heq
    obtain ⟨rfl, -⟩ := List.cons.inj htail
    obtain ⟨tail, rfl⟩ := hbegins
    exact h ⟨d, text ++ tail, rfl, hmark⟩

theorem startsNumber_append {c : Char} {cs : List Char} (h : startsNumber c cs = true)
    (rest : List Char) : startsNumber c (cs ++ rest) = true := by
  cases cs with
  | nil =>
    have hdigit : c.isDigit = true := by simpa [startsNumber] using h
    simp [startsNumber, hdigit]
  | cons d ds => simpa [startsNumber] using h

/-- A number begins with no blank and no comment. -/
theorem isBlank_of_startsNumber {c : Char} {cs : List Char} (h : startsNumber c cs = true) :
    isBlank c = false ∧ c ≠ '#' := by
  simp only [startsNumber, Bool.or_eq_true, Bool.and_eq_true, beq_iff_eq] at h
  rcases h with hdigit | ⟨rfl, -⟩
  · have hlow : isDigitOrLow c = true := by simp [isDigitOrLow, hdigit]
    refine ⟨isBlank_of_isNameContinue (isNameContinue_of_isDigitOrLow hlow), ?_⟩
    rintro rfl
    exact absurd hdigit (by decide)
  · decide

theorem isAlphanum_ascii {c : Char} (h : c.isAlphanum = true) : c.toNat < 128 := by
  have hbound : ∀ d : Char, d.toNat < 128 → c.val ≤ d.val → c.toNat < 128 := fun d hd hle =>
    Nat.lt_of_le_of_lt (UInt32.le_iff_toNat_le.1 hle) hd
  rcases Bool.or_eq_true_iff.1 h with halpha | hdigit
  · rcases Bool.or_eq_true_iff.1 halpha with hupper | hlower
    · exact hbound 'Z' (by decide) (of_decide_eq_true hupper).2
    · exact hbound 'z' (by decide) (of_decide_eq_true (Bool.and_eq_true_iff.1 hlower).2)
  · exact isDigit_ascii hdigit

theorem isNameContinue_of_isRadixDigit {c : Char} (h : isRadixDigit c = true) :
    isNameContinue c = true := by
  simp only [isRadixDigit, Bool.or_eq_true] at h
  simp only [isNameContinue, Bool.or_eq_true]
  rcases h with halnum | hlow
  · left
    rw [isLetter_of_ascii (isAlphanum_ascii halnum), isNumeral_of_ascii (isAlphanum_ascii halnum)]
    simpa [Char.isAlphanum] using halnum
  · exact .inr hlow

theorem isRadixDigit_eq_false {c : Char} (h : isNameContinue c = false) :
    isRadixDigit c = false := by
  cases hc : isRadixDigit c with
  | false => rfl
  | true => simp [isNameContinue_of_isRadixDigit hc] at h

/-! ## Decimal integers -/

/-- A decimal integer. -/
def IsInteger (cs : List Char) : Prop :=
  (∃ c ∈ cs.head?, c.isDigit = true) ∧ ∀ c ∈ cs, isDigitOrLow c = true

/-- A decimal integer begins with no mark of a base, and neither does what follows it. -/
theorem IsInteger.not_startsRadix {cs : List Char} (h : IsInteger cs)
    (hrest : ∀ c ∈ rest.head?, isRadixMark c = false) : ¬StartsRadix (cs ++ rest) := by
  obtain ⟨⟨c, hc, -⟩, hdigits⟩ := h
  refine not_startsRadix_append ?_ (List.prefix_refl cs) ?_ hrest
  · rintro rfl
    simp at hc
  · rintro ⟨mark, more, rfl, hmark⟩
    have table : ['x', 'X', 'o', 'O', 'b', 'B'].all (!isDigitOrLow ·) = true := by decide
    have hnot := List.all_eq_true.1 table mark (by simpa [isRadixMark] using hmark)
    simp [hdigits mark (by simp)] at hnot

/-- An integer is scanned as a decimal, whatever follows but for a mark. -/
theorem lex_integer_append {cs : List Char} (h : IsInteger cs) (rest : List Char)
    (hrest : ∀ c ∈ rest.head?, isRadixMark c = false) :
    lex (cs ++ rest) = (scanDecimal (cs ++ rest)).token :: lex (scanDecimal (cs ++ rest)).rest := by
  have hradix := h.not_startsRadix hrest
  obtain ⟨⟨c, hc, hdigit⟩, -⟩ := h
  obtain ⟨ds, rfl⟩ := List.head?_eq_some_iff.1 hc
  have hstarts : startsNumber c (ds ++ rest) = true := by simp [startsNumber, hdigit]
  obtain ⟨hblank, hhash⟩ := isBlank_of_startsNumber hstarts
  rw [List.cons_append] at hradix ⊢
  rw [lex_cons hblank hhash, scanToken, if_pos hstarts, scanNumber_of_not_startsRadix hradix]

/-- A decimal integer is one token where it ends. -/
theorem lex_integer {cs : List Char} (h : IsInteger cs)
    (hrest : ∀ c ∈ rest.head?, endsInt c = true) :
    lex (cs ++ rest) = .int (String.ofList cs) :: lex rest := by
  have hscan := Numeral.scanDecimal_append ⟨cs, [], [], h.2, .none, .none⟩ hrest
  simp only [Numeral.text, List.append_nil] at hscan
  have hmarks : ∀ c ∈ rest.head?, isRadixMark c = false := fun c hc =>
    isRadixMark_eq_false (isNameContinue_of_endsInt (hrest c hc))
  rw [lex_integer_append h rest hmarks, hscan]
  simp [Numeral.token, Numeral.text]

/-- An integer alone is one token. -/
theorem IsInteger.lex_eq {cs : List Char} (h : IsInteger cs) :
    lex cs = [.int (String.ofList cs)] := by
  simpa using @lex_integer [] cs h (by simp)

/-- The digits of a number are an integer. -/
theorem isInteger_toDigits (n : Nat) : IsInteger (Nat.toDigits 10 n) := by
  have hdigits := @isDigit_of_mem_toDigits n
  obtain ⟨c, cs, hcs⟩ := List.exists_cons_of_ne_nil (@Nat.toDigits_ne_nil n 10)
  exact ⟨⟨c, by simp [hcs], hdigits c (by simp [hcs])⟩, fun d hd => by
    simp [isDigitOrLow, hdigits d hd]⟩

end ExprLang
