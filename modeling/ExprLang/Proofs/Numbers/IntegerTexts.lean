import ExprLang.Evaluator
import ExprLang.Proofs.Numbers.Arithmetic
import ExprLang.Proofs.Numbers.IntegerParts

/-!
# Texts of integers

What `int` makes of a text and a base (`int_reads`). The texts of integers are given by a grammar:
an optional sign, an optional mark that the base admits, and digits in groups (`IntText`, with
`Proper` for what stands in front of the digits). They are read as what they write, if that is in
range.

Not only they are. What is left in front of the digits is read over as well (`Stray`), and where the
digits are for a number that no word holds, nobody looks at what stands after them (`IsOverlong`).
Both are kept apart from the grammar, so that the statement says of every text what becomes of it.

A text is read in three steps, the sign, the mark and the digits, and each of them takes off what
the grammar puts there: from its parts a text is read as they say (`IntText.Accepted.readIntText`),
and what is read has such parts (`readIntText_cases`).
-/

namespace ExprLang

variable {base : Nat} {rest : List Char}

/-! ## Texts of integers -/

/-- A text for an integer in a base, cut into its parts: a sign, a mark, what stands in front of the
digits, and digits in groups. -/
structure IntText (base : Nat) where
  sign : List Char
  mark : List Char
  lead : List Char
  run : List Char
  negative : Bool
  radix : Nat
  magnitude : Nat
  isSign : Sign sign negative
  isMark : Mark base mark radix
  isRun : DigitRun radix 0 run magnitude

namespace IntText

variable (p : IntText base)

/-- The text that is cut. -/
def text : List Char :=
  p.sign ++ (p.mark ++ (p.lead ++ p.run))

/-- The integer that the text writes. -/
def value : Int :=
  if p.negative then -(p.magnitude : Int) else p.magnitude

/-- Whether zeros in front say something. If the base is left open and no mark says which it is, the
digits may begin with a zero only if all of them are zeros. -/
def ZerosCount : Prop :=
  base = 0 → p.mark = [] → p.run.head? = some '0' → ∀ c ∈ p.run, c = '0' ∨ c = '_'

/-- Whether nothing stands in front of the digits but a sign and a mark, or one underscore after a
mark. -/
def Proper : Prop :=
  p.lead = [] ∧ p.ZerosCount ∨ p.lead = ['_'] ∧ p.mark ≠ []

/-- Whether something stands in front of the digits that does not belong there and is read over: an
underscore without a mark, or a plus sign that is not that of the text. -/
def Stray : Prop :=
  p.lead ∈ leads ∧ p.lead ≠ [] ∧ (p.lead = ['_'] → p.mark = []) ∧
    (p.sign = [] → p.mark = [] → p.lead.head? ≠ some '+')

/-- Whether a text is read, its parts being where they are looked for. -/
structure Accepted : Prop where
  lead : p.lead ∈ leads
  zeros : p.lead = [] → p.ZerosCount
  plus : p.sign = [] → p.mark = [] → p.lead.head? ≠ some '+'

/-- The accepted texts are the proper ones and the stray ones. -/
theorem accepted_iff : p.Accepted ↔ p.Proper ∨ p.Stray := by
  constructor
  · rintro ⟨hlead, hzeros, hplus⟩
    by_cases hnone : p.lead = []
    · exact .inl (.inl ⟨hnone, hzeros hnone⟩)
    · by_cases hmarked : p.lead = ['_'] ∧ p.mark ≠ []
      · exact .inl (.inr hmarked)
      · exact .inr ⟨hlead, hnone, fun h => by simpa [h] using hmarked, hplus⟩
  · rintro ((⟨hlead, hzeros⟩ | ⟨hlead, hmark⟩) | ⟨hlead, hsome, -, hplus⟩)
    · exact ⟨by simp [hlead, leads], fun _ => hzeros, by simp [hlead]⟩
    · exact ⟨by simp [hlead, leads], by simp [hlead], by simp [hlead]⟩
    · exact ⟨hlead, fun h => absurd h hsome, hplus⟩

end IntText

/-! ## What is read -/

namespace IntText

variable {p : IntText base}

/-- Zeros in front that count are no obstacle, whatever follows a number that is too large. -/
theorem Accepted.hasIdleZero (hp : p.Accepted) (hrest : rest = [] ∨ p.magnitude ≠ 0)
    (hbase : base = 0) (hmark : p.mark = []) :
    ExprLang.hasIdleZero (p.lead ++ (p.run ++ rest)) = false := by
  rw [hasIdleZero_eq_false_iff]
  intro hhead
  have hlead := head?_of_mem_leads hp.lead
  cases hlead' : p.lead with
  | nil =>
    rw [hlead', List.nil_append] at hhead
    obtain ⟨c, run, hrun⟩ := List.exists_cons_of_ne_nil p.isRun.grouped.ne_nil
    have hzeros := hp.zeros hlead' hbase hmark (by simpa [hrun] using hhead)
    rcases hrest with rfl | hne
    · simpa using hzeros
    · exact absurd (p.isRun.eq_zero rfl hzeros) hne
  | cons c lead =>
    obtain rfl : c = '0' := by simpa [hlead'] using hhead
    simp [hlead'] at hlead

/-- The digits of an accepted text are found behind its mark and what leads them. -/
theorem Accepted.numeralDigits? (hp : p.Accepted) (hbase : base = 0 ∨ 2 ≤ base ∧ base ≤ 36)
    (hgrouped : Grouped (p.run ++ rest)) (hrest : rest = [] ∨ maxMagnitude < p.magnitude) :
    ∃ ds, ExprLang.numeralDigits? base
        ((p.mark ++ (p.lead ++ (p.run ++ rest))).map Char.toLower) = some (p.radix, ds) ∧
      ∀ limit, readNat p.radix limit ds =
        readDigits p.radix limit 0 ((p.run ++ rest).filter (· != '_')) := by
  have hradix : p.radix ≤ maxMagnitude := (p.isMark.radix_le hbase).trans (by decide)
  have hzero := hp.hasIdleZero (hrest.imp_right fun h => Nat.ne_of_gt (Nat.zero_lt_of_lt h))
  have hno : p.mark = [] →
      markedNumeral? base ((p.lead ++ (p.run ++ rest)).map Char.toLower) = none := fun h =>
    markedNumeral?_digits (h ▸ p.isMark) hp.lead p.isRun
      (hrest.imp_right fun h => hradix.trans h.le)
  obtain ⟨ds, hds, hread⟩ := leadingDigits?_append hp.lead hgrouped (head?_of_digitRun p.isRun).1
  refine ⟨ds.map Char.toLower, ?_, fun limit => ?_⟩
  · rw [numeralDigits?_eq, anyNumeral?_append p.isMark hzero hno, Option.bind_some,
      leadingDigits?_toLower, hds]
    rfl
  · rw [readNat_toLower, hread]

/-- The sign of an accepted text is read. -/
theorem Accepted.readSign (hp : p.Accepted) :
    ExprLang.readSign (p.text ++ rest) = (p.negative, p.mark ++ (p.lead ++ (p.run ++ rest))) := by
  have htext : p.text ++ rest = p.sign ++ (p.mark ++ (p.lead ++ (p.run ++ rest))) := by
    simp [text]
  rw [htext]
  refine readSign_append p.isSign fun hsign => ?_
  have hmarked := p.isMark
  cases hmark : p.mark with
  | cons c mark =>
    rw [hmark] at hmarked
    cases hmarked
    simp
  | nil =>
    have hplus := hp.plus hsign hmark
    have hlead := head?_of_mem_leads hp.lead
    cases hlead' : p.lead with
    | nil =>
      rw [List.nil_append, List.nil_append]
      exact head?_of_digitRun p.isRun
    | cons c lead =>
      have hnot : c ≠ '+' := by simpa [hlead'] using hplus
      have hc : c = '_' ∨ c = '+' := by simpa [hlead'] using hlead
      obtain rfl := hc.resolve_right hnot
      simp

end IntText

/-! ## What is made of a text -/

/-- Whether a text writes an integer in a base. -/
def IsInt (base : Nat) (cs : List Char) (z : Int) : Prop :=
  ∃ p : IntText base, p.Proper ∧ p.text = cs ∧ p.value = z

/-- Whether a text is read as an integer though something stands in front of its digits. -/
def IsStrayInt (base : Nat) (cs : List Char) (z : Int) : Prop :=
  ∃ p : IntText base, p.Stray ∧ p.text = cs ∧ p.value = z

/-- Whether a text begins with digits for a number that is too large to be looked at, whatever
characters stand after them in groups. -/
def IsOverlong (base : Nat) (cs : List Char) : Prop :=
  ∃ (p : IntText base) (rest : List Char), (p.Proper ∨ p.Stray) ∧ p.text ++ rest = cs ∧
    Grouped (p.run ++ rest) ∧ maxMagnitude < p.magnitude

section

variable {text : String} (hbase : base = 0 ∨ 2 ≤ base ∧ base ≤ 36)

include hbase

theorem readIntText_eq : readIntText text base =
    let (negative, unsigned) := readSign (trim text.toList)
    match numeralDigits? base (unsigned.map Char.toLower) with
    | none => .error (.value (.malformedInt base text))
    | some (radix, digits) =>
      match readNat radix maxMagnitude digits with
      | .ok magnitude => checkedInt (if negative then -(magnitude : Int) else magnitude)
      | .error .tooLarge => .error (.overflow .integer)
      | .error _ => .error (.value (.malformedInt base text)) := by
  unfold readIntText
  rw [if_neg (by omega)]
  rfl

omit hbase in
/-- A magnitude above the greatest has no integer of either sign. -/
theorem IntText.not_inRange {p : IntText base} (h : maxMagnitude < p.magnitude) :
    ¬InRange p.value := by
  have hmax : maxMagnitude = 18446744073709551615 := rfl
  unfold InRange value
  split <;> omega

/-- Digits for too large a number are too many, whatever stands after them. -/
theorem IntText.Accepted.readIntText_overlong {p : IntText base} (hp : p.Accepted)
    (htext : p.text ++ rest = trim text.toList) (hgrouped : Grouped (p.run ++ rest))
    (hlarge : maxMagnitude < p.magnitude) :
    readIntText text base = .error (.overflow .integer) := by
  obtain ⟨ds, hds, hread⟩ := hp.numeralDigits? hbase hgrouped (.inr hlarge)
  have hdigits : readNat p.radix maxMagnitude ds = .error .tooLarge := by
    rw [hread, List.filter_append, p.isRun.readDigits_of_lt hlarge]
  simp only [readIntText_eq hbase, ← htext, hp.readSign, hds, hdigits]

/-- A text of an integer is read as that integer, if it is in range. -/
theorem IntText.Accepted.readIntText {p : IntText base} (hp : p.Accepted)
    (htext : p.text = trim text.toList) :
    readIntText text base = checkedInt p.value := by
  have hrest : p.text ++ [] = trim text.toList := by rw [List.append_nil, htext]
  have hgrouped : Grouped (p.run ++ []) := by simpa using p.isRun.grouped
  by_cases hlarge : maxMagnitude < p.magnitude
  · rw [hp.readIntText_overlong hbase hrest hgrouped hlarge,
      checkedInt_of_not_inRange (not_inRange hlarge)]
  · obtain ⟨ds, hds, hread⟩ := hp.numeralDigits? hbase hgrouped (.inl rfl)
    have hdigits : readNat p.radix maxMagnitude ds = .ok p.magnitude := by
      rw [hread, List.filter_append, p.isRun.readDigits_of_le (Nat.le_of_not_lt hlarge)]
      rfl
    simp only [readIntText_eq hbase, ← hrest, hp.readSign, hds, hdigits]
    rfl

/-- There is nothing else that is read. -/
theorem readIntText_cases (text : String) :
    (∃ p : IntText base, p.Accepted ∧ p.text = trim text.toList) ∨
    (∃ (p : IntText base) (rest : List Char), p.Accepted ∧ p.text ++ rest = trim text.toList ∧
      Grouped (p.run ++ rest) ∧ maxMagnitude < p.magnitude) ∨
    readIntText text base = .error (.value (.malformedInt base text)) := by
  rw [readIntText_eq hbase]
  cases hread : readSign (trim text.toList) with
  | mk negative unsigned =>
  obtain ⟨sign, htext, hsign, hplus⟩ := exists_of_readSign hread
  dsimp only
  cases hnumeral : numeralDigits? base (unsigned.map Char.toLower) with
  | none => exact .inr (.inr rfl)
  | some numeral =>
    obtain ⟨radix, ds⟩ := numeral
    obtain ⟨mark, lead, body, rfl, hmark, hlead, hbody, hzero, hdigits⟩ :=
      exists_of_numeralDigits?_eq_some hnumeral
    have hfirst : sign = [] → mark = [] → lead.head? ≠ some '+' := by
      rintro hnone rfl hhead
      refine hplus hnone ?_
      cases lead with
      | nil => cases hhead
      | cons => exact hhead
    -- However much of the digits is looked at, the parts are accepted.
    have haccepted {run rest : List Char} {n : Nat} (hrun : DigitRun radix 0 run n)
        (hcut : body = run ++ rest) : ∃ p : IntText base, p.Accepted ∧ p.run = run ∧
          p.magnitude = n ∧ p.text ++ rest = trim text.toList := by
      refine ⟨⟨sign, mark, lead, run, negative, radix, n, hsign, hmark, hrun⟩, ⟨hlead, ?_, hfirst⟩,
        rfl, rfl, ?_⟩
      · rintro rfl hbase rfl hhead c hc
        have hzeros := hasIdleZero_eq_false_iff.1 (hzero hbase rfl)
        refine hzeros ?_ c (by simp [hcut, hc])
        rw [hcut, List.nil_append, List.head?_append, hhead]
        rfl
      · simp [IntText.text, htext, hcut]
    dsimp only
    rw [hdigits]
    cases hresult : readDigits radix maxMagnitude 0 (body.filter (· != '_')) with
    | ok n =>
      obtain ⟨p, hp, -, -, hcut⟩ := haccepted (hbody.digitRun hresult) (List.append_nil body).symm
      exact .inl ⟨p, hp, by simpa using hcut⟩
    | error fault =>
      cases fault with
      | tooLarge =>
        obtain ⟨run, rest, n, rfl, hrun, hlarge⟩ := hbody.exists_digitRun hresult
        obtain ⟨p, hp, rfl, rfl, hcut⟩ := haccepted hrun rfl
        exact .inr (.inl ⟨p, rest, hp, hcut, hbody, hlarge⟩)
      | empty | badDigit => exact .inr (.inr rfl)

/-- The integer of a text is read, if it is in range. -/
theorem readIntText_of_isInt {z : Int}
    (h : IsInt base (trim text.toList) z ∨ IsStrayInt base (trim text.toList) z) :
    readIntText text base = checkedInt z := by
  obtain ⟨p, hp, htext, rfl⟩ | ⟨p, hp, htext, rfl⟩ := h
  · exact (p.accepted_iff.2 (.inl hp)).readIntText hbase htext
  · exact (p.accepted_iff.2 (.inr hp)).readIntText hbase htext

/-- A text that begins with too many digits is too large, whatever comes after them. -/
theorem readIntText_of_isOverlong (h : IsOverlong base (trim text.toList)) :
    readIntText text base = .error (.overflow .integer) := by
  obtain ⟨p, rest, hp, htext, hgrouped, hlarge⟩ := h
  exact (p.accepted_iff.2 hp).readIntText_overlong hbase htext hgrouped hlarge

/-- A text is that of an integer, too large or malformed. -/
theorem isInt_or_malformed (text : String) :
    (∃ z, IsInt base (trim text.toList) z ∨ IsStrayInt base (trim text.toList) z) ∨
    IsOverlong base (trim text.toList) ∨
    readIntText text base = .error (.value (.malformedInt base text)) := by
  obtain ⟨p, hp, htext⟩ | ⟨p, rest, hp, htext⟩ | hmalformed := readIntText_cases hbase text
  · refine .inl ⟨p.value, ?_⟩
    exact (p.accepted_iff.1 hp).imp (fun h => ⟨p, h, htext, rfl⟩) fun h => ⟨p, h, htext, rfl⟩
  · exact .inr (.inl ⟨p, rest, p.accepted_iff.1 hp, htext⟩)
  · exact .inr (.inr hmalformed)

/-- Which integer is read. -/
theorem readIntText_eq_ok_iff {k : Int64} : readIntText text base = .ok k ↔
    IsInt base (trim text.toList) k.toInt ∨ IsStrayInt base (trim text.toList) k.toInt := by
  refine ⟨fun h => ?_, fun h => by rw [readIntText_of_isInt hbase h, checkedInt_toInt]⟩
  obtain ⟨z, hz⟩ | hlong | hmalformed := isInt_or_malformed hbase text
  · rw [readIntText_of_isInt hbase hz, checkedInt_eq_ok] at h
    exact h.2 ▸ hz
  · rw [readIntText_of_isOverlong hbase hlong] at h
    cases h
  · rw [hmalformed] at h
    cases h

/-- When a text is too large. -/
theorem readIntText_eq_overflow_iff : readIntText text base = .error (.overflow .integer) ↔
    (∃ z, (IsInt base (trim text.toList) z ∨ IsStrayInt base (trim text.toList) z) ∧ ¬InRange z) ∨
      IsOverlong base (trim text.toList) := by
  constructor
  · intro h
    obtain ⟨z, hz⟩ | hlong | hmalformed := isInt_or_malformed hbase text
    · rw [readIntText_of_isInt hbase hz, checkedInt_eq_error] at h
      exact .inl ⟨z, hz, h.1⟩
    · exact .inr hlong
    · rw [hmalformed] at h
      cases h
  · rintro (⟨z, hz, hrange⟩ | hlong)
    · rw [readIntText_of_isInt hbase hz, checkedInt_of_not_inRange hrange]
    · exact readIntText_of_isOverlong hbase hlong

/-- When a text is malformed. -/
theorem readIntText_eq_malformed_iff :
    readIntText text base = .error (.value (.malformedInt base text)) ↔
      (∀ z, ¬(IsInt base (trim text.toList) z ∨ IsStrayInt base (trim text.toList) z)) ∧
        ¬IsOverlong base (trim text.toList) := by
  constructor
  · refine fun h => ⟨fun z hz => ?_, fun hlong => ?_⟩
    · rw [readIntText_of_isInt hbase hz, checkedInt_eq_error] at h
      cases h.2
    · rw [readIntText_of_isOverlong hbase hlong] at h
      cases h
  · rintro ⟨hno, hshort⟩
    obtain ⟨z, hz⟩ | hlong | hmalformed := isInt_or_malformed hbase text
    · exact absurd hz (hno z)
    · exact absurd hlong hshort
    · exact hmalformed

end

/-! ## Main statement -/

/-- The conversion of a text in a given base. -/
theorem toInteger_text {b : Value} {i : Int64} (hb : b.int? = some i) (text : String) :
    (Value.str text).toInteger (some b) = (readIntText text i.toInt).map Value.int := by
  have hbase : b.asInteger = .ok i := by
    unfold Value.asInteger
    rw [hb]
  unfold Value.toInteger
  dsimp only
  rw [hbase]
  show (readIntText text i.toInt >>= fun k => pure (Value.int k)) = _
  cases readIntText text i.toInt <;> rfl

/-- What `int` makes of a text and a base. -/
theorem run_int {b : Value} {i : Int64} (hb : b.int? = some i) (text : String) (call : Caller)
    (r : RealmId) (s : Store) : Builtin.int.run call r (.ofList [.str text, b]) s =
      match readIntText text i.toInt with
      | .ok k => EStateM.Result.ok (.int k) s
      | .error e => EStateM.Result.error e s := by
  show (liftM ((Value.str text).toInteger (some b)) : Eval Value) s = _
  rw [toInteger_text hb]
  cases readIntText text i.toInt <;> rfl

/-- The function `int` on a text and a base, which is 0 or from 2 to 36. It makes an integer of a
text that writes one in range, and also of a text with something in front of its digits that does
not belong there. What is out of range, or begins so, is said to be, and all other texts are
malformed. -/
theorem int_reads {base : Nat} (hbase : base = 0 ∨ 2 ≤ base ∧ base ≤ 36) {b : Value} {i : Int64}
    (hb : b.int? = some i) (hi : i.toInt = base) (text : String) (call : Caller) (r : RealmId)
    (s : Store) :
    let result := Builtin.int.run call r (.ofList [.str text, b]) s
    let cs := trim text.toList
    (∀ k : Int64, result = .ok (.int k) s ↔
      IsInt base cs k.toInt ∨ IsStrayInt base cs k.toInt) ∧
    (result = .error (.overflow .integer) s ↔
      (∃ z, (IsInt base cs z ∨ IsStrayInt base cs z) ∧ ¬InRange z) ∨ IsOverlong base cs) ∧
    (result = .error (.value (.malformedInt base text)) s ↔
      (∀ z, ¬(IsInt base cs z ∨ IsStrayInt base cs z)) ∧ ¬IsOverlong base cs) := by
  intro result cs
  have hok (k : Int64) : result = .ok (.int k) s ↔ readIntText text base = .ok k := by
    unfold result
    rw [run_int hb, hi]
    cases readIntText text base <;> simp
  have herror (e : RuntimeError) : result = .error e s ↔ readIntText text base = .error e := by
    unfold result
    rw [run_int hb, hi]
    cases readIntText text base <;> simp
  exact ⟨fun k => (hok k).trans (readIntText_eq_ok_iff hbase),
    (herror _).trans (readIntText_eq_overflow_iff hbase),
    (herror _).trans (readIntText_eq_malformed_iff hbase)⟩

/-- Digits in groups after a sign and a mark, in letters of either case. -/
theorem int_reads_marked :
    (Value.int 0).int? = some 0 ∧ (0 : Int64).toInt = (0 : Nat) ∧
    Builtin.int.run (callValue 1 0) 0 (.ofList [.str "-0X_F_f", .int 0]) .empty =
      .ok (.int (-255)) .empty := by
  refine ⟨rfl, rfl, ?_⟩
  have hreads := int_reads (.inl rfl) (rfl : (Value.int 0).int? = some 0) rfl "-0X_F_f"
    (callValue 1 0) 0 .empty
  have hrun : DigitRun 16 0 ['F', '_', 'f'] 255 := .skip (d := 15) rfl (.last (d := 15) rfl)
  let marked : IntText 0 :=
    ⟨['-'], ['0', 'X'], ['_'], ['F', '_', 'f'], true, 16, 255, .minus, .marked rfl (.inl rfl), hrun⟩
  exact (hreads.1 (-255)).2 (.inl ⟨marked, .inr ⟨rfl, by simp⟩, rfl, rfl⟩)

/-- A text with two signs is no integer, but it is read as one. -/
theorem not_int_reads_exactly : ¬∀ (text : String) (k : Int64),
    Builtin.int.run (callValue 1 0) 0 (.ofList [.str text, .int 10]) .empty =
      .ok (.int k) .empty ↔ IsInt 10 (trim text.toList) k.toInt := by
  intro h
  obtain ⟨⟨sign, mark, lead, run, negative, radix, n, hsign, hmark, hrun⟩, hproper, htext, -⟩ :=
    (h "-+5" (-5)).1 rfl
  have hnone : mark = [] := by
    cases hmark with
    | asked | ten => rfl
    | marked hc hbase =>
      unfold markedBase? at hc
      split at hc <;> cases hc <;> simp at hbase
  obtain rfl : lead = [] := hproper.elim And.left fun h => absurd hnone h.2
  subst hnone
  have hcut : sign ++ run = ['-', '+', '5'] := htext
  -- What is left for the digits begins with a sign.
  have hfirst : run.head? = some '-' ∨ run.head? = some '+' := by
    cases hsign with
    | none => exact .inl (congrArg List.head? hcut)
    | plus => simp at hcut
    | minus => exact .inr (congrArg List.head? (List.cons.inj hcut).2)
  have hdigit := @head?_of_digitRun _ _ _ [] _ hrun
  rw [List.append_nil] at hdigit
  exact hfirst.elim hdigit.2 hdigit.1

end ExprLang
