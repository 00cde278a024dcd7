import ExprLang.Proofs.Numbers.IntegerTexts
import ExprLang.Proofs.Running
import ExprLang.Proofs.Tokens.Decimals

/-!
# Integers written and read again

An integer has a text in base ten, and one with a mark in base sixteen and in base eight. Each of
them is read as that integer (`integer_texts`): by `int`, in the base in which it was written or in
the base that its mark says, and as a source, where it is a literal if it has no minus sign.

Both readers get at the digits in ways of their own, so they share no more than what the digits
write (`digitRun_toDigits`). To `int` the text is one of an integer, cut into its parts
(`isInt_toDigits`). A source is cut into tokens first, and the text is one of them (`lex_marked`),
whose value is that of its digits (`integerValue_marked`). The least integer needs no case of its
own: its sign is put on a magnitude that need not fit in a word.
-/

namespace ExprLang

open ExprLang.Parser

variable {base radix n v d : Nat} {c : Char} {cs : List Char}

/-! ## Digits -/

/-- A digit is read as what it stands for. -/
theorem digitValue?_digitChar (hd : d < radix) (hradix : radix ≤ 16) :
    digitValue? radix d.digitChar = some d := by
  have table : ∀ d < 16, digitValue? 16 d.digitChar = some d := by decide
  have hvalue := table d (by omega)
  unfold digitValue? at hvalue ⊢
  obtain ⟨hvalue, -⟩ := Option.filter_eq_some_iff.1 hvalue
  exact Option.filter_eq_some_iff.2 ⟨hvalue, decide_eq_true hd⟩

/-- One more digit at the end. -/
theorem DigitRun.concat (h : DigitRun radix v cs n) (hc : digitValue? radix c = some d) :
    DigitRun radix v (cs ++ [c]) (n * radix + d) := by
  induction h with
  | last h => exact .next h (.last hc)
  | next h _ ih => exact .next h ih
  | skip h _ ih => exact .skip h ih

/-- The digits of a number write that number. -/
theorem digitRun_toDigits (hone : 1 < radix) (hradix : radix ≤ 16) (n : Nat) :
    DigitRun radix 0 (Nat.toDigits radix n) n := by
  induction n using Nat.strongRecOn with
  | ind n ih =>
    rcases Nat.lt_or_ge n radix with hlt | hle
    · rw [Nat.toDigits_of_lt_base hlt]
      have hlast := DigitRun.last (v := 0) (digitValue?_digitChar hlt hradix)
      rwa [Nat.zero_mul, Nat.zero_add] at hlast
    · rw [Nat.toDigits_of_base_le hone hle]
      have hmod : n % radix < radix := Nat.mod_lt n (by omega)
      have hnext := (ih (n / radix) (Nat.div_lt_self (by omega) hone)).concat
        (digitValue?_digitChar hmod hradix)
      rwa [Nat.mul_comm, Nat.div_add_mod] at hnext

theorem isAlphanum_of_digitValue? (hc : digitValue? radix c = some d) : c.isAlphanum = true := by
  unfold digitValue? at hc
  obtain ⟨hc, -⟩ := Option.filter_eq_some_iff.1 hc
  unfold Char.isAlphanum Char.isAlpha
  split at hc
  · simp [*]
  · split at hc
    · simp [*]
    · split at hc
      · simp [*]
      · cases hc

/-- No underscore is among the digits of a number. -/
theorem isAlphanum_of_mem_toDigits (hone : 1 < radix) (hradix : radix ≤ 16) (n : Nat) :
    ∀ c ∈ Nat.toDigits radix n, c.isAlphanum = true := by
  have hdigit {d : Nat} (hd : d < radix) : d.digitChar.isAlphanum = true :=
    isAlphanum_of_digitValue? (digitValue?_digitChar hd hradix)
  induction n using Nat.strongRecOn with
  | ind n ih =>
    rcases Nat.lt_or_ge n radix with hlt | hle
    · rw [Nat.toDigits_of_lt_base hlt, List.forall_mem_singleton]
      exact hdigit hlt
    · rw [Nat.toDigits_of_base_le hone hle, List.forall_mem_append, List.forall_mem_singleton]
      exact ⟨ih (n / radix) (Nat.div_lt_self (by omega) hone), hdigit (Nat.mod_lt n (by omega))⟩

/-- The digits of a number have no underscores. -/
theorem filter_toDigits (hone : 1 < radix) (hradix : radix ≤ 16) (n : Nat) :
    (Nat.toDigits radix n).filter (· != '_') = Nat.toDigits radix n := by
  rw [List.filter_eq_self]
  intro c hc
  have halnum := isAlphanum_of_mem_toDigits hone hradix n c hc
  rw [bne_iff_ne]
  rintro rfl
  exact absurd halnum (by decide)

/-- The digits of a number are read as the number. -/
theorem readNat_toDigits {limit : Nat} (hone : 1 < radix) (hradix : radix ≤ 16) (hn : n ≤ limit) :
    readNat radix limit (Nat.toDigits radix n) = .ok n := by
  have hrun := digitRun_toDigits hone hradix n
  have hplus := (@head?_of_digitRun _ _ _ [] _ hrun).1
  have hread := @DigitRun.readDigits_of_le _ _ _ _ _ [] hrun hn
  rw [List.append_nil] at hplus hread
  rw [readNat_of_head?_ne hrun.grouped.ne_nil hplus, ← filter_toDigits hone hradix, hread]
  rfl

/-! ## Integers from texts -/

/-- The minus sign of an integer that has one. -/
def minusSign (n : Int) : List Char :=
  if n < 0 then ['-'] else []

/-- A minus sign is a sign. -/
theorem sign_minusSign (n : Int) : Sign (minusSign n) (decide (n < 0)) := by
  unfold minusSign
  by_cases h : n < 0
  · simpa [h] using Sign.minus
  · simpa [h] using Sign.none

/-- Sign, mark and digits of an integer are a text of it. -/
theorem isInt_toDigits {mark : List Char} (hmark : Mark base mark radix)
    (hopen : base = 0 → mark ≠ []) (hone : 1 < radix) (hradix : radix ≤ 16) (n : Int) :
    IsInt base (minusSign n ++ (mark ++ Nat.toDigits radix n.natAbs)) n := by
  refine ⟨⟨minusSign n, mark, [], Nat.toDigits radix n.natAbs, decide (n < 0), radix, n.natAbs,
    sign_minusSign n, hmark, digitRun_toDigits hone hradix _⟩, .inl ⟨rfl, ?_⟩, rfl, ?_⟩
  · exact fun hbase hnone => absurd hnone (hopen hbase)
  · unfold IntText.value
    simp only [decide_eq_true_eq]
    omega

theorem toList_intText (n : Int) :
    (intText n).toList = minusSign n ++ Nat.toDigits 10 n.natAbs := by
  unfold intText minusSign
  split <;> simp

/-- A text in a base is a sign, the mark and the digits. -/
theorem toList_radixText (radix : Nat) (mark : String) (n : Int) :
    (radixText radix mark n).toList =
      minusSign n ++ (mark.toList ++ Nat.toDigits radix n.natAbs) := by
  unfold radixText minusSign
  split <;> simp

/-- A text without blanks is trimmed already. -/
theorem trim_of_no_blank (h : ∀ c ∈ cs, isBlank c = false) : trim cs = cs := by
  have hdrop {ds : List Char} (h : ∀ c ∈ ds, isBlank c = false) : ds.dropWhile isBlank = ds := by
    cases ds with
    | nil => rfl
    | cons d ds => rw [List.dropWhile_cons_of_neg (by simp [h d])]
  unfold trim stripBoth stripEnd stripStart
  rw [hdrop h, hdrop fun c hc => h c (List.mem_reverse.1 hc), List.reverse_reverse]

theorem isBlank_of_isAlphanum (h : c.isAlphanum = true) : isBlank c = false := by
  refine Bool.eq_false_iff.2 fun hblank => ?_
  have table : ∀ n ∈ blankCodes, (Char.ofNat n).isAlphanum = false := by decide
  have hcode := table _ (mem_blankCodes_of_isBlank hblank)
  rw [Char.ofNat_toNat, h] at hcode
  cases hcode

/-- The text of an integer has no blanks. -/
theorem trim_toDigits {mark : List Char} (hmark : ∀ c ∈ mark, c.isAlphanum = true)
    (hone : 1 < radix) (hradix : radix ≤ 16) (n : Int) :
    trim (minusSign n ++ (mark ++ Nat.toDigits radix n.natAbs)) =
      minusSign n ++ (mark ++ Nat.toDigits radix n.natAbs) := by
  refine trim_of_no_blank fun c hc => ?_
  rcases List.mem_append.1 hc with hsign | hc
  · unfold minusSign at hsign
    split at hsign
    · obtain rfl := List.mem_singleton.1 hsign
      decide
    · cases hsign
  · rcases List.mem_append.1 hc with hc | hc
    · exact isBlank_of_isAlphanum (hmark c hc)
    · exact isBlank_of_isAlphanum (isAlphanum_of_mem_toDigits hone hradix _ c hc)

/-- A text of an integer is read as it, in its own base or in one told by the mark. -/
theorem readIntText_of_toDigits {text : String} {mark : List Char} {n : Int64}
    (htext : text.toList = minusSign n.toInt ++ (mark ++ Nat.toDigits radix n.toInt.natAbs))
    (hmark : Mark base mark radix) (hopen : base = 0 → mark ≠ [])
    (halnum : ∀ c ∈ mark, c.isAlphanum = true) (hone : 1 < radix) (hradix : radix ≤ 16)
    (hbase : base = 0 ∨ 2 ≤ base ∧ base ≤ 36) : readIntText text base = .ok n := by
  refine (readIntText_eq_ok_iff hbase).2 (.inl ?_)
  rw [htext, trim_toDigits halnum hone hradix]
  exact isInt_toDigits hmark hopen hone hradix _

/-- The decimal text of an integer is read as it. -/
theorem readIntText_intText (n : Int64) : readIntText (intText n.toInt) 10 = .ok n := by
  have htext : (intText n.toInt).toList =
      minusSign n.toInt ++ ([] ++ Nat.toDigits 10 n.toInt.natAbs) := toList_intText _
  exact readIntText_of_toDigits htext (.asked (by decide)) (by decide) (by simp) (by decide)
    (by decide) (by decide)

/-- An integer that is written with a mark is read in its base, also if the base is left open. -/
theorem readIntText_radixText {mark : Char}
    (hmark : mark = 'x' ∧ radix = 16 ∨ mark = 'o' ∧ radix = 8)
    (hbase : base = 0 ∨ base = radix) (n : Int64) :
    readIntText (radixText radix (String.ofList ['0', mark]) n.toInt) base = .ok n := by
  have hmarked : Mark base ['0', mark] radix := by
    rcases hmark with ⟨rfl, rfl⟩ | ⟨rfl, rfl⟩ <;> exact .marked rfl hbase
  have halnum : ∀ c ∈ ['0', mark], c.isAlphanum = true := by
    rcases hmark with ⟨rfl, -⟩ | ⟨rfl, -⟩ <;> simp
  have htext := toList_radixText radix (String.ofList ['0', mark]) n.toInt
  rw [String.toList_ofList] at htext
  exact readIntText_of_toDigits htext hmarked (by simp) halnum (by omega) (by omega) (by omega)

/-! ## Integers in a source -/

/-- A literal with a mark is one token. -/
theorem lex_marked {mark : Char} {digits : List Char} (hmark : isRadixMark mark = true)
    (hdigits : ∀ c ∈ digits, isRadixDigit c = true) :
    lex ('0' :: mark :: digits) = [.int (String.ofList ('0' :: mark :: digits))] := by
  have htake := @takeWhile_append_stop isRadixDigit digits [] hdigits (by simp)
  have hdrop := @dropWhile_append_stop isRadixDigit digits [] hdigits (by simp)
  rw [List.append_nil] at htake hdrop
  have hstart : startsNumber '0' (mark :: digits) = true := rfl
  have hscan : scanNumber ('0' :: mark :: digits) =
      ⟨'0' :: mark :: digits, .int (String.ofList ('0' :: mark :: digits)), []⟩ := by
    unfold scanNumber
    simp only [hmark, htake, hdrop, and_self, if_true]
  rw [lex_cons (by decide) (by decide), scanToken, if_pos hstart, hscan, lex_nil]

/-- A source that is one token, a literal in range, is that literal. -/
theorem parse_integer {text : String} {k : Int64} (htokens : lex text.toList = [.int text])
    (hvalue : integerValue text = .ok k) : parse text = .ok (.literal (.int k)) := by
  have hsource : sourceTokens text = [.int text] := htokens
  have hshort : [Token.int text].length < maxNesting := by
    show 1 < maxNesting
    decide
  refine parse_of_derives_short (by rwa [hsource]) ?_
  rw [hsource]
  exact .integer hvalue

/-- The digits of a number are parsed as it. -/
theorem parse_repr (hn : n ≤ maxInteger) :
    parse (Nat.repr n) = .ok (.literal (.int (Int64.ofNat n))) := by
  refine parse_integer ?_ (integerValue_repr hn)
  rw [Nat.toList_repr, (isInteger_toDigits n).lex_eq]
  rfl

/-- The value of a literal with a mark is that of its digits. -/
theorem integerValue_marked {text : String} {mark : Char}
    (hmark : mark = 'x' ∧ radix = 16 ∨ mark = 'o' ∧ radix = 8)
    (htext : text.toList = '0' :: mark :: Nat.toDigits radix n) (hn : n ≤ maxInteger) :
    integerValue text = .ok (Int64.ofNat n) := by
  have hradix : 1 < radix ∧ radix ≤ 16 ∧ radix ≠ 10 := by omega
  have hfilter : text.toList.filter (· != '_') = '0' :: mark :: Nat.toDigits radix n := by
    have hkeep : (mark != '_') = true := by
      rcases hmark with ⟨rfl, -⟩ | ⟨rfl, -⟩ <;> rfl
    have hdigits := filter_toDigits hradix.1 hradix.2.1 n
    simp [htext, hkeep, hdigits]
  have hread := readNat_toDigits hradix.1 hradix.2.1 hn
  unfold integerValue
  rw [hfilter]
  rcases hmark with ⟨rfl, rfl⟩ | ⟨rfl, rfl⟩ <;> simp [hread]

/-- The text of a non-negative number in another base is parsed as it. -/
theorem parse_radixText {mark : Char} (hmark : mark = 'x' ∧ radix = 16 ∨ mark = 'o' ∧ radix = 8)
    (hn : n ≤ maxInteger) :
    parse (radixText radix (String.ofList ['0', mark]) n) =
      .ok (.literal (.int (Int64.ofNat n))) := by
  have hradix : 1 < radix ∧ radix ≤ 16 := by omega
  have htext : (radixText radix (String.ofList ['0', mark]) n).toList =
      '0' :: mark :: Nat.toDigits radix n := by
    rw [toList_radixText, String.toList_ofList, minusSign, if_neg (by omega), Int.natAbs_natCast]
    rfl
  refine parse_integer ?_ (integerValue_marked hmark htext hn)
  have hdigits : ∀ c ∈ Nat.toDigits radix n, isRadixDigit c = true := fun c hc => by
    unfold isRadixDigit
    rw [isAlphanum_of_mem_toDigits hradix.1 hradix.2 n c hc, Bool.true_or]
  have hisMark : isRadixMark mark = true := by
    rcases hmark with ⟨rfl, -⟩ | ⟨rfl, -⟩ <;> rfl
  rw [htext, lex_marked hisMark hdigits, ← htext, String.ofList_toList]

/-! ## Main statement -/

/-- What `int` does with a text. -/
theorem run_int_alone (text : String) (call : Caller) (r : RealmId) (s : Store) :
    Builtin.int.run call r (.ofList [.str text]) s =
      match readIntText text 10 with
      | .ok k => EStateM.Result.ok (.int k) s
      | .error e => EStateM.Result.error e s := by
  show (liftM ((Value.str text).toInteger none) : Eval Value) s = _
  show (liftM (readIntText text 10 >>= fun k => pure (Value.int k)) : Eval Value) s = _
  cases readIntText text 10 <;> rfl

/-- An integer has a text in base ten, in base sixteen and in base eight, and `int` makes that
integer of each of them, also when it is told the base of a text with a mark or that the base is
open. As a source, each text of an integer that is not negative is a literal of it. -/
theorem integer_texts (n : Int64) (call : Caller) (r : RealmId) (s : Store) :
    ∃ decimal hexadecimal octal : String,
      Builtin.str.run call r (.ofList [.int n]) s = .ok (.str decimal) s ∧
      Builtin.hex.run call r (.ofList [.int n]) s = .ok (.str hexadecimal) s ∧
      Builtin.oct.run call r (.ofList [.int n]) s = .ok (.str octal) s ∧
      (∀ args ∈ [[.str decimal], [.str hexadecimal, .int 16], [.str hexadecimal, .int 0],
          [.str octal, .int 8], [.str octal, .int 0]],
        Builtin.int.run call r (.ofList args) s = .ok (.int n) s) ∧
      (0 ≤ n → ∀ text ∈ [decimal, hexadecimal, octal],
        parse text = .ok (.literal (.int n))) := by
  refine ⟨intText n.toInt, radixText 16 "0x" n.toInt, radixText 8 "0o" n.toInt, rfl, rfl, rfl,
    ?_, fun hn => ?_⟩
  · have hrun {text : String} {base : Int64} (h : readIntText text base.toInt = .ok n) :
        Builtin.int.run call r (.ofList [.str text, .int base]) s = .ok (.int n) s := by
      rw [run_int rfl, h]
    have hten : Builtin.int.run call r (.ofList [.str (intText n.toInt)]) s = .ok (.int n) s := by
      rw [run_int_alone, readIntText_intText]
    have hhex {base : Nat} := @readIntText_radixText base 16 'x' (.inl ⟨rfl, rfl⟩)
    have hoct {base : Nat} := @readIntText_radixText base 8 'o' (.inr ⟨rfl, rfl⟩)
    intro args hargs
    simp only [List.mem_cons, List.not_mem_nil, or_false] at hargs
    rcases hargs with rfl | rfl | rfl | rfl | rfl
    · exact hten
    · exact hrun (hhex (.inr rfl) n)
    · exact hrun (hhex (.inl rfl) n)
    · exact hrun (hoct (.inr rfl) n)
    · exact hrun (hoct (.inl rfl) n)
  · have hnonneg : 0 ≤ n.toInt := by simpa using Int64.le_iff_toInt_le.1 hn
    have hbound : n.toInt ≤ maxInteger := n.toInt_le
    obtain ⟨m, hm⟩ := Int.eq_ofNat_of_zero_le hnonneg
    have hmax : m ≤ maxInteger := by omega
    have hvalue : Int64.ofNat m = n := by
      rw [← Int64.toInt_inj, Int64.toInt_ofNat_of_lt (Nat.lt_of_le_of_lt hmax (by decide)), hm]
    rw [hm, ← hvalue]
    intro text htext
    simp only [List.mem_cons, List.not_mem_nil, or_false] at htext
    rcases htext with rfl | rfl | rfl
    · exact parse_repr hmax
    · exact parse_radixText (.inl ⟨rfl, rfl⟩) hmax
    · exact parse_radixText (.inr ⟨rfl, rfl⟩) hmax

/-- The integer that is all ones in its lowest eight places. -/
theorem integer_texts_byte :
    Builtin.hex.run (callValue 1 0) 0 (.ofList [.int 255]) .empty = .ok (.str "0xff") .empty ∧
    Builtin.int.run (callValue 1 0) 0 (.ofList [.str "0xff", .int 0]) .empty =
      .ok (.int 255) .empty ∧
    (0 : Int64) ≤ 255 ∧ parse "0xff" = .ok (.literal (.int 255)) := by
  obtain ⟨decimal, hexadecimal, octal, -, hhex, -, hint, hparse⟩ :=
    integer_texts 255 (callValue 1 0) 0 .empty
  have hrun : Builtin.hex.run (callValue 1 0) 0 (.ofList [.int 255]) .empty =
      .ok (.str (radixText 16 "0x" 255)) .empty := rfl
  obtain rfl : hexadecimal = "0xff" := by
    rw [Value.str.inj (ok_unique hhex hrun)]
    decide
  exact ⟨hhex, hint _ (by simp), by decide, hparse (by decide) _ (by simp)⟩

end ExprLang
