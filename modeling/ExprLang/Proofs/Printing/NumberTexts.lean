import ExprLang.Proofs.Tokens.Appending

/-!
# The characters of printed numbers

A number is written with letters, digits, points and signs (`WritesNumber.literal`), in whatever
notation: there is nothing in its text that a symbol would go on with, and no blank and no quote.
-/

namespace ExprLang

/-! ## Characters of numbers -/

/-- Characters of the texts of numbers. -/
def writesNumber (c : Char) : Bool :=
  isNameContinue c || ['.', '+', '-'].contains c

theorem writesNumber_iff {c : Char} :
    writesNumber c = true ↔ isNameContinue c = true ∨ c = '.' ∨ c = '+' ∨ c = '-' := by
  simp [writesNumber]

theorem isPlain_of_writesNumber {c : Char} (h : writesNumber c = true) : isPlain c = true := by
  rcases writesNumber_iff.1 h with hc | rfl | rfl | rfl
  · exact isPlain_of_isNameContinue hc
  all_goals decide

theorem opensText_of_writesNumber {c : Char} (h : writesNumber c = true) : opensText c = true := by
  rcases writesNumber_iff.1 h with hc | rfl | rfl | rfl
  · exact opensText_of_isNameContinue hc
  all_goals decide

/-- A text with which a number may be written. -/
def WritesNumber (text : List Char) : Prop :=
  ∀ c ∈ text, writesNumber c = true

instance (text : List Char) : Decidable (WritesNumber text) :=
  decidable_of_iff (text.all writesNumber = true) List.all_eq_true

theorem WritesNumber.append {text more : List Char} (h : WritesNumber text)
    (h' : WritesNumber more) : WritesNumber (text ++ more) :=
  List.forall_mem_append.2 ⟨h, h'⟩

theorem WritesNumber.cons {c : Char} {text : List Char} (hc : writesNumber c = true)
    (h : WritesNumber text) : WritesNumber (c :: text) :=
  List.forall_mem_cons.2 ⟨hc, h⟩

theorem WritesNumber.zeros (n : Nat) : WritesNumber (List.replicate n '0') := by
  intro c hc
  rw [List.eq_of_mem_replicate hc]
  decide

/-! ## Decimals -/

theorem WritesNumber.decimalDigits (n : Nat) : WritesNumber (decimalDigits n) := by
  intro c hc
  have hdigit := isDigit_of_mem_toDigits c hc
  exact writesNumber_iff.2 (.inl (isNameContinue_of_isDigitOrLow (by simp [isDigitOrLow, hdigit])))

theorem WritesNumber.ofNat (n : Nat) (shift : Int) :
    WritesNumber (Decimal.ofNat n shift).digits := by
  intro c hc
  have hmem := (List.dropWhile_sublist _).subset (List.mem_reverse.1 hc)
  exact WritesNumber.decimalDigits n c (List.mem_reverse.1 hmem)

/-- The digits of the search for the shortest decimal. -/
theorem WritesNumber.search (i : RoundingInterval) (width : Int) (left used : Nat) :
    WritesNumber (i.search width left used).digits := by
  induction left generalizing used with
  | zero => exact .ofNat _ _
  | succ left ih =>
    rw [RoundingInterval.search]
    split
    · exact .ofNat _ _
    · exact ih _

/-- The shortest decimal is written in digits. -/
theorem WritesNumber.shortest? {x : Double} {d : Decimal} (h : shortest? x = some d) :
    WritesNumber d.digits := by
  unfold ExprLang.shortest? at h
  split at h
  · simp at h
  · split at h
    · simp at h
    · obtain rfl := Option.some.inj h
      exact .search _ _ _ _

theorem WritesNumber.positional {d : Decimal} (h : WritesNumber d.digits) :
    WritesNumber d.positional.1 ∧ WritesNumber d.positional.2 := by
  unfold Decimal.positional
  split
  · exact ⟨.append (fun c hc => h c (List.mem_of_mem_take hc)) (.zeros _),
      fun c hc => h c (List.mem_of_mem_drop hc)⟩
  · exact ⟨.cons (by decide) (by decide), .append (.zeros _) h⟩

/-- The text of a decimal, with a point before what stands behind it. -/
theorem WritesNumber.point {fraction more : List Char} (h : WritesNumber fraction)
    (hmore : WritesNumber more) :
    WritesNumber (if fraction.isEmpty then more else '.' :: fraction) := by
  split
  · exact hmore
  · exact .cons (by decide) h

theorem WritesNumber.write {d : Decimal} (h : WritesNumber d.digits) :
    WritesNumber (d.write floatNotation) := by
  have hpositional := WritesNumber.positional h
  have hsign : writesNumber (if d.exponent < 0 then '-' else '+') = true := by
    split <;> decide
  have htake : WritesNumber (d.digits.take 1) := fun c hc => h c (List.mem_of_mem_take hc)
  have hdrop : WritesNumber (d.digits.drop 1) := fun c hc => h c (List.mem_of_mem_drop hc)
  unfold Decimal.write
  split
  · exact hpositional.1.append (hpositional.2.point (by decide))
  · refine (htake.append (hdrop.point (by decide))).append ?_
    exact .cons (by decide) (.cons hsign ((WritesNumber.zeros _).append (.decimalDigits _)))

/-! ## Literals -/

/-- Floats are written in such characters. -/
theorem WritesNumber.floatText (x : Double) : WritesNumber (floatText x).toList := by
  have hsign : WritesNumber (if x.isNegative then ['-'] else []) := by
    split <;> decide
  unfold ExprLang.floatText
  split
  · decide
  · simp only
    split
    · next d hd =>
      rw [String.toList_ofList]
      exact hsign.append (.write (.shortest? hd))
    · rw [String.toList_ofList]
      refine hsign.append ?_
      split <;> decide

theorem WritesNumber.intText (n : Int) : WritesNumber (intText n).toList := by
  have hrepr : WritesNumber (Nat.repr n.natAbs).toList := by
    rw [Nat.toList_repr]
    exact .decimalDigits _
  unfold ExprLang.intText
  split
  · rw [String.toList_append]
    exact .cons (by decide) hrepr
  · exact hrepr

theorem WritesNumber.partText (x : Double) : WritesNumber (partText x).toList := by
  unfold ExprLang.partText
  split
  · split
    · exact .intText _
    · exact .floatText x
  · exact .floatText x

/-- Literals that are numbers. -/
def Literal.isNumber : Literal → Bool
  | .int _ | .float _ | .imaginary _ => true
  | _ => false

theorem WritesNumber.literal {value : Literal} (h : value.isNumber = true) :
    WritesNumber value.text.toList := by
  cases value with
  | int n => exact .intText _
  | float x => exact .floatText x
  | imaginary x =>
    rw [Literal.text, String.toList_append]
    exact (WritesNumber.partText x).append (by decide)
  | _ => simp [Literal.isNumber] at h

end ExprLang
