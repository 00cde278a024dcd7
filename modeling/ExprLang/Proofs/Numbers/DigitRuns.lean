import ExprLang.Number.Reading
import Mathlib

/-!
# Runs of digits

The digits of a numeral may be grouped by underscores that stand alone and between digits.
`DigitRun` is the grammar of such a run and says what number it writes; `Grouped` says where its
underscores are. Reading a run means to take the underscores out and then to read one digit after
another, where the number may get too large before all digits were looked at. So a run is read as
its number if that is small enough (`readDigits_eq_ok_iff`), and a text is said to be too large as
soon as it begins with a run for too large a number (`readDigits_eq_tooLarge_iff`).
-/

namespace ExprLang

variable {radix limit v n d : Nat} {c : Char} {cs run rest : List Char}

/-! ## Underscores -/

/-- Whether the underscores of a text stand alone and between other characters. -/
inductive Grouped : List Char → Prop
  | last {c : Char} (hc : c ≠ '_') : Grouped [c]
  | next {c : Char} {cs : List Char} (hc : c ≠ '_') (h : Grouped cs) : Grouped (c :: cs)
  | skip {c : Char} {cs : List Char} (hc : c ≠ '_') (h : Grouped cs) : Grouped (c :: '_' :: cs)

theorem Grouped.ne_nil (h : Grouped cs) : cs ≠ [] := by
  cases h <;> simp

/-- Grouped digits do not begin with an underscore. -/
theorem Grouped.head?_ne (h : Grouped cs) : cs.head? ≠ some '_' := by
  cases h <;> simpa

theorem Grouped.getLast?_ne (h : Grouped cs) : cs.getLast? ≠ some '_' := by
  induction h with
  | last hc => simpa
  | next _ h ih => rwa [List.getLast?_cons_of_ne_nil h.ne_nil]
  | skip _ h ih =>
    rwa [List.getLast?_cons_of_ne_nil (List.cons_ne_nil _ _), List.getLast?_cons_of_ne_nil h.ne_nil]

theorem occursIn_cons (pattern : List Char) (c : Char) (cs : List Char) :
    occursIn pattern (c :: cs) =
      ((afterStart? pattern (c :: cs)).isSome || occursIn pattern cs) := by
  unfold occursIn
  rw [cutAt?]
  cases afterStart? pattern (c :: cs) with
  | some rest => rfl
  | none => simp

theorem occursIn_underscores (c : Char) (cs : List Char) : occursIn ['_', '_'] (c :: cs) =
    (c == '_' && cs.head? == some '_' || occursIn ['_', '_'] cs) := by
  rw [occursIn_cons]
  congr 1
  by_cases hc : c = '_'
  · subst hc
    cases cs with
    | nil => rfl
    | cons d cs =>
      by_cases hd : d = '_'
      · subst hd
        rfl
      · simp [afterStart?, hd, Ne.symm hd]
  · simp [afterStart?, hc, Ne.symm hc]

/-- No two underscores of grouped characters are next to each other. -/
theorem Grouped.occursIn_eq_false (h : Grouped cs) : occursIn ['_', '_'] cs = false := by
  induction h with
  | last _ =>
    rw [occursIn_underscores]
    simp [occursIn, cutAt?, afterStart?]
  | next hc _ ih => simp [occursIn_underscores, hc, ih]
  | skip hc h ih => simp [occursIn_underscores, hc, ih, h.head?_ne]

/-- What neither begins nor ends with an underscore, and has no two together, is grouped. -/
theorem grouped_of_ends : ∀ {cs : List Char}, cs ≠ [] → cs.head? ≠ some '_' →
    cs.getLast? ≠ some '_' → occursIn ['_', '_'] cs = false → Grouped cs
  | [c], _, hhead, _, _ => .last (by simpa using hhead)
  | c :: d :: cs, _, hhead, hlast, hno => by
    have hc : c ≠ '_' := by simpa using hhead
    have hlast' : (d :: cs).getLast? ≠ some '_' := by
      rwa [List.getLast?_cons_of_ne_nil (List.cons_ne_nil d cs)] at hlast
    have hno' : occursIn ['_', '_'] (d :: cs) = false := by
      simpa [occursIn_underscores c, hc] using hno
    by_cases hd : d = '_'
    · subst hd
      have hrest : cs ≠ [] := by
        rintro rfl
        exact hlast' rfl
      have hends := hno'
      rw [occursIn_underscores, Bool.or_eq_false_iff] at hends
      refine .skip hc (grouped_of_ends hrest (by simpa using hends.1) ?_ hends.2)
      rwa [List.getLast?_cons_of_ne_nil hrest] at hlast'
    · exact .next hc (grouped_of_ends (List.cons_ne_nil d cs) (by simpa using hd) hlast' hno')

/-- Underscores are taken out where they group characters. -/
theorem ungrouped?_eq_some_iff {ds : List Char} :
    ungrouped? cs = some ds ↔ Grouped cs ∧ cs.filter (· != '_') = ds := by
  unfold ungrouped?
  split
  · next hbad =>
    simp only [reduceCtorEq, false_iff, not_and]
    intro h
    simp [h.ne_nil, h.head?_ne, h.getLast?_ne, h.occursIn_eq_false] at hbad
  · next hgood =>
    simp only [Bool.or_eq_true, List.isEmpty_iff, beq_iff_eq, not_or, Bool.not_eq_true] at hgood
    obtain ⟨⟨⟨hne, hhead⟩, hlast⟩, hno⟩ := hgood
    simp [grouped_of_ends hne hhead hlast hno]

/-! ## Digits -/

/-- Whether digits in groups, read after those that write `v`, write `n`. -/
inductive DigitRun (radix : Nat) : (v : Nat) → List Char → (n : Nat) → Prop
  | last {v d : Nat} {c : Char} (hc : digitValue? radix c = some d) :
      DigitRun radix v [c] (v * radix + d)
  | next {v n d : Nat} {c : Char} {cs : List Char} (hc : digitValue? radix c = some d)
      (h : DigitRun radix (v * radix + d) cs n) : DigitRun radix v (c :: cs) n
  | skip {v n d : Nat} {c : Char} {cs : List Char} (hc : digitValue? radix c = some d)
      (h : DigitRun radix (v * radix + d) cs n) : DigitRun radix v (c :: '_' :: cs) n

/-- A digit is below its base. -/
theorem lt_of_digitValue? (hc : digitValue? radix c = some d) : d < radix := by
  obtain ⟨-, hd⟩ := Option.filter_eq_some_iff.1 hc
  exact of_decide_eq_true hd

theorem ne_underscore_of_digitValue? (hc : digitValue? radix c = some d) : c ≠ '_' := by
  rintro rfl
  cases hc

/-- A run of digits is grouped. -/
theorem DigitRun.grouped (h : DigitRun radix v cs n) : Grouped cs := by
  induction h with
  | last hc => exact .last (ne_underscore_of_digitValue? hc)
  | next hc _ ih => exact .next (ne_underscore_of_digitValue? hc) ih
  | skip hc _ ih => exact .skip (ne_underscore_of_digitValue? hc) ih

/-- More digits make no less of a number. -/
theorem DigitRun.le (h : DigitRun radix v cs n) : v ≤ n := by
  have hstep {v d : Nat} {c : Char} (hc : digitValue? radix c = some d) : v ≤ v * radix + d := by
    have := Nat.mul_le_mul_left v (Nat.zero_lt_of_lt (lt_of_digitValue? hc))
    omega
  induction h with
  | last hc => exact hstep hc
  | next hc _ ih | skip hc _ ih => exact Nat.le_trans (hstep hc) ih

/-- Zeros write zero. -/
theorem DigitRun.eq_zero {v : Nat} (h : DigitRun radix v run n) (hv : v = 0)
    (hzeros : ∀ c ∈ run, c = '0' ∨ c = '_') : n = 0 := by
  have hstep {v d : Nat} {c : Char} (hc : digitValue? radix c = some d) (hv : v = 0)
      (hzero : c = '0' ∨ c = '_') : v * radix + d = 0 := by
    rcases hzero with rfl | rfl
    · unfold digitValue? at hc
      obtain ⟨hd, -⟩ := Option.filter_eq_some_iff.1 hc
      obtain rfl : 0 = d := Option.some.inj hd
      simp [hv]
    · cases hc
  induction h with
  | last hc => exact hstep hc hv (hzeros _ (by simp))
  | next hc _ ih | skip hc _ ih =>
    exact ih (hstep hc hv (hzeros _ (by simp))) fun c hc => hzeros c (by simp [hc])

theorem head?_of_digitRun {v : Nat} (h : DigitRun radix v run n) :
    (run ++ rest).head? ≠ some '+' ∧ (run ++ rest).head? ≠ some '-' := by
  cases h with
  | last hc | next hc _ | skip hc _ =>
    constructor
    all_goals
      rw [List.cons_append, List.head?_cons, Ne, Option.some.injEq]
      rintro rfl
      cases hc

/-! ## Reading digits -/

/-- Digits that write a number that is small enough are read, whatever follows them. -/
theorem DigitRun.readDigits_of_le (h : DigitRun radix v run n) (hle : n ≤ limit) :
    readDigits radix limit v (run.filter (· != '_') ++ rest) = readDigits radix limit n rest := by
  induction h with
  | last hc =>
    have hne := ne_underscore_of_digitValue? hc
    simp [readDigits, hne, hc, hle]
  | next hc h ih | skip hc h ih =>
    have hne := ne_underscore_of_digitValue? hc
    have hfirst := Nat.le_trans h.le hle
    simp [readDigits, hne, hc, hfirst, ih hle]

/-- Digits that write too large a number are too many, whatever follows them. -/
theorem DigitRun.readDigits_of_lt (h : DigitRun radix v run n) (hlt : limit < n) :
    readDigits radix limit v (run.filter (· != '_') ++ rest) = .error .tooLarge := by
  induction h with
  | last hc =>
    have hne := ne_underscore_of_digitValue? hc
    simp [readDigits, hne, hc, Nat.not_le.2 hlt]
  | @next v _ d _ _ hc _ ih | @skip v _ d _ _ hc _ ih =>
    have hne := ne_underscore_of_digitValue? hc
    by_cases hfirst : v * radix + d ≤ limit <;> simp [readDigits, hne, hc, hfirst, ih hlt]

/-- What is read begins with a digit. -/
theorem exists_of_readDigits_ok (h : readDigits radix limit v (c :: cs) = .ok n) :
    ∃ d, digitValue? radix c = some d ∧ readDigits radix limit (v * radix + d) cs = .ok n := by
  rw [readDigits] at h
  cases hc : digitValue? radix c with
  | none => simp [hc] at h
  | some d =>
    by_cases hle : v * radix + d ≤ limit <;> simp [hc, hle] at h
    exact ⟨d, rfl, h⟩

/-- What is too large is so by its first digits or by more. -/
theorem exists_of_readDigits_tooLarge (h : readDigits radix limit v (c :: cs) = .error .tooLarge) :
    ∃ d, digitValue? radix c = some d ∧ (limit < v * radix + d ∨
      readDigits radix limit (v * radix + d) cs = .error .tooLarge) := by
  rw [readDigits] at h
  cases hc : digitValue? radix c with
  | none => simp [hc] at h
  | some d =>
    by_cases hle : v * radix + d ≤ limit
    · simp [hc, hle] at h
      exact ⟨d, rfl, .inr h⟩
    · exact ⟨d, rfl, .inl (Nat.lt_of_not_le hle)⟩

/-- What is read is a run of digits. -/
theorem Grouped.digitRun (h : Grouped cs)
    (hread : readDigits radix limit v (cs.filter (· != '_')) = .ok n) : DigitRun radix v cs n := by
  induction h generalizing v with
  | last hc =>
    obtain ⟨d, hd, hrest⟩ := exists_of_readDigits_ok (by simpa [hc] using hread)
    obtain rfl : v * radix + d = n := by simpa [readDigits] using hrest
    exact .last hd
  | next hc _ ih =>
    obtain ⟨d, hd, hrest⟩ := exists_of_readDigits_ok (by simpa [hc] using hread)
    exact .next hd (ih hrest)
  | skip hc _ ih =>
    obtain ⟨d, hd, hrest⟩ := exists_of_readDigits_ok (by simpa [hc] using hread)
    exact .skip hd (ih hrest)

/-- What is too large begins with digits for too large a number. -/
theorem Grouped.exists_digitRun (h : Grouped cs)
    (hread : readDigits radix limit v (cs.filter (· != '_')) = .error .tooLarge) :
    ∃ run rest n, cs = run ++ rest ∧ DigitRun radix v run n ∧ limit < n := by
  induction h generalizing v with
  | @last c hc =>
    obtain ⟨d, hd, hlt | hrest⟩ := exists_of_readDigits_tooLarge (by simpa [hc] using hread)
    · exact ⟨[c], [], _, rfl, .last hd, hlt⟩
    · cases hrest
  | @next c cs hc _ ih =>
    obtain ⟨d, hd, hlt | hrest⟩ := exists_of_readDigits_tooLarge (by simpa [hc] using hread)
    · exact ⟨[c], cs, _, rfl, .last hd, hlt⟩
    · obtain ⟨run, rest, n, rfl, hrun, hlt⟩ := ih hrest
      exact ⟨c :: run, rest, n, rfl, .next hd hrun, hlt⟩
  | @skip c cs hc _ ih =>
    obtain ⟨d, hd, hlt | hrest⟩ := exists_of_readDigits_tooLarge (by simpa [hc] using hread)
    · exact ⟨[c], '_' :: cs, _, rfl, .last hd, hlt⟩
    · obtain ⟨run, rest, n, rfl, hrun, hlt⟩ := ih hrest
      exact ⟨c :: '_' :: run, rest, n, rfl, .skip hd hrun, hlt⟩

/-! ## Letters of either case -/

/-- Only letters become what they are not. -/
theorem toLower_eq_iff {e : Char} (he : e.isAlpha = false) : c.toLower = e ↔ c = e := by
  by_cases hupper : c.isUpper = true
  · have halpha : c.isAlpha = true := by simp [Char.isAlpha, hupper]
    refine iff_of_false ?_ ?_
    · rintro rfl
      rw [Char.isAlpha_toLower_eq_isAlpha, halpha] at he
      cases he
    · rintro rfl
      rw [halpha] at he
      cases he
  · rw [Char.toLower_eq_of_not_isUpper hupper]

/-- A digit has one value in either case. -/
theorem digitValue?_toLower (radix : Nat) (c : Char) :
    digitValue? radix c.toLower = digitValue? radix c := by
  by_cases hupper : c.isUpper = true
  · have table : ∀ n < 128, let c := Char.ofNat n
        c.isUpper = true → c.toLower.isDigit = false ∧ c.toLower.isLower = true ∧
          c.isDigit = false ∧ c.isLower = false ∧ c.toLower.toNat - 87 = c.toNat - 55 := by
      decide
    have hlt : c.toNat < 128 := by
      have hle := (of_decide_eq_true hupper).2
      rw [UInt32.le_iff_toNat_le] at hle
      exact Nat.lt_of_le_of_lt hle (by decide)
    have hc := table c.toNat hlt
    rw [Char.ofNat_toNat] at hc
    obtain ⟨hdigit', hlower', hdigit, hlower, hvalue⟩ := hc hupper
    simp [digitValue?, hdigit', hlower', hdigit, hlower, hupper, hvalue]
  · rw [Char.toLower_eq_of_not_isUpper hupper]

/-- Capital digits are read as small ones. -/
theorem readDigits_toLower (cs : List Char) :
    readDigits radix limit v (cs.map Char.toLower) = readDigits radix limit v cs := by
  induction cs generalizing v with
  | nil => rfl
  | cons c cs ih =>
    rw [List.map_cons, readDigits, readDigits, digitValue?_toLower]
    cases digitValue? radix c with
    | none => rfl
    | some d => simp only [ih]

theorem grouped_toLower : Grouped (cs.map Char.toLower) ↔ Grouped cs := by
  have hne {c : Char} : c.toLower ≠ '_' ↔ c ≠ '_' := not_congr (toLower_eq_iff rfl)
  constructor
  · intro h
    generalize hmap : cs.map Char.toLower = ds at h
    induction h generalizing cs with
    | last hc =>
      obtain ⟨c, rfl, rfl⟩ := List.map_eq_singleton_iff.1 hmap
      exact .last (hne.1 hc)
    | next hc _ ih =>
      obtain ⟨c, cs, rfl, rfl, hrest⟩ := List.map_eq_cons_iff.1 hmap
      exact .next (hne.1 hc) (ih hrest)
    | skip hc _ ih =>
      obtain ⟨c, cs, rfl, rfl, hrest⟩ := List.map_eq_cons_iff.1 hmap
      obtain ⟨u, cs, rfl, hu, htail⟩ := List.map_eq_cons_iff.1 hrest
      obtain rfl := (toLower_eq_iff rfl).1 hu
      exact .skip (hne.1 hc) (ih htail)
  · intro h
    induction h with
    | last hc => exact .last (hne.2 hc)
    | next hc _ ih => exact .next (hne.2 hc) ih
    | skip hc _ ih => exact .skip (hne.2 hc) ih

theorem ungrouped?_toLower (cs : List Char) :
    ungrouped? (cs.map Char.toLower) = (ungrouped? cs).map (List.map Char.toLower) := by
  have hfilter : (cs.map Char.toLower).filter (· != '_') =
      (cs.filter (· != '_')).map Char.toLower := by
    rw [List.filter_map]
    congr 1
    refine List.filter_congr fun c _ => ?_
    have hc : c.toLower = '_' ↔ c = '_' := toLower_eq_iff rfl
    simp [bne, Bool.beq_eq_decide_eq, hc]
  refine Option.ext fun ds => ?_
  rw [Option.map_eq_some_iff, ungrouped?_eq_some_iff, grouped_toLower, hfilter]
  simp only [ungrouped?_eq_some_iff]
  exact ⟨fun h => ⟨_, ⟨h.1, rfl⟩, h.2⟩, fun ⟨_, ⟨h, hds⟩, heq⟩ => ⟨h, hds ▸ heq⟩⟩

end ExprLang
