import ExprLang.Proofs.Numbers.DigitRuns

/-!
# The parts of a numeral

What may stand around the digits of an integer in a text: a sign (`Sign`), a mark of the base
(`Mark`), and right in front of the digits one of a few texts that are read over (`leads`). Where
these parts are put together they are found again (`readSign_append`, `anyNumeral?_append`,
`leadingDigits?_append`), and what is found are such parts. Letters count in either case, so all of
this is about texts in small letters, and the parts are those of the text that was given.
-/

namespace ExprLang

variable {base radix n : Nat} {c : Char} {cs ds mark lead body run rest : List Char}

/-! ## What stands in front of digits -/

/-- What may stand in front of the digits: an underscore, a plus sign, and one more underscore after
that. -/
def leads : List (List Char) :=
  [[], ['_'], ['+'], ['+', '_'], ['_', '+'], ['_', '+', '_']]

theorem head?_of_mem_leads (h : lead ∈ leads) :
    lead = [] ∨ lead.head? = some '_' ∨ lead.head? = some '+' := by
  simp only [leads, List.mem_cons, List.not_mem_nil, or_false] at h
  rcases h with rfl | rfl | rfl | rfl | rfl | rfl <;> simp

/-- The digits after an underscore that may stand in front of them. -/
def leadingDigits? (cs : List Char) : Option (List Char) :=
  ungrouped? (if cs.head? = some '_' then cs.tail else cs)

/-- A plus sign in front of digits is read over. -/
theorem readNat_plus (hne : cs ≠ []) (limit : Nat) :
    readNat radix limit ('+' :: cs) = readDigits radix limit 0 cs := by
  cases cs with
  | nil => exact absurd rfl hne
  | cons => rfl

/-- Without a sign of its own, digits are read as they are. -/
theorem readNat_of_head?_ne (hne : cs ≠ []) (hhead : cs.head? ≠ some '+') (limit : Nat) :
    readNat radix limit cs = readDigits radix limit 0 cs := by
  unfold readNat
  split
  · exact absurd rfl hne
  · exact absurd rfl hhead
  · rfl

/-- Grouped digits are more than underscores. -/
theorem Grouped.filter_ne_nil (h : Grouped cs) : cs.filter (· != '_') ≠ [] := by
  cases h <;> simp_all

/-- What may lead digits is passed over. -/
theorem leadingDigits?_append (hlead : lead ∈ leads) (hbody : Grouped body)
    (hplus : body.head? ≠ some '+') : ∃ ds, leadingDigits? (lead ++ body) = some ds ∧
      ∀ radix limit, readNat radix limit ds =
        readDigits radix limit 0 (body.filter (· != '_')) := by
  have hne := hbody.filter_ne_nil
  have hplain : ∀ radix limit, readNat radix limit (body.filter (· != '_')) =
      readDigits radix limit 0 (body.filter (· != '_')) := by
    refine fun radix limit => readNat_of_head?_ne hne ?_ limit
    cases hbody <;> simp_all
  have hsigned : ∀ radix limit, readNat radix limit ('+' :: body.filter (· != '_')) =
      readDigits radix limit 0 (body.filter (· != '_')) := fun _ => readNat_plus hne
  have hhead := hbody.head?_ne
  have hnext : Grouped ('+' :: body) := .next (by decide) hbody
  have hskip : Grouped ('+' :: '_' :: body) := .skip (by decide) hbody
  simp only [leads, List.mem_cons, List.not_mem_nil, or_false] at hlead
  unfold leadingDigits?
  simp only [ungrouped?_eq_some_iff]
  rcases hlead with rfl | rfl | rfl | rfl | rfl | rfl
  · exact ⟨_, ⟨by simpa [hhead], rfl⟩, by simpa [hhead] using hplain⟩
  · exact ⟨_, ⟨hbody, rfl⟩, hplain⟩
  · exact ⟨_, ⟨hnext, rfl⟩, hsigned⟩
  · exact ⟨_, ⟨hskip, rfl⟩, hsigned⟩
  · exact ⟨_, ⟨hnext, rfl⟩, hsigned⟩
  · exact ⟨_, ⟨hskip, rfl⟩, hsigned⟩

/-- Grouped digits that begin with a sign are led by it. -/
theorem Grouped.exists_lead (h : Grouped cs) : ∃ lead ∈ [[], ['+'], ['+', '_']], ∃ body,
    cs = lead ++ body ∧ Grouped body ∧ ∀ radix limit,
      readNat radix limit (cs.filter (· != '_')) =
        readDigits radix limit 0 (body.filter (· != '_')) := by
  by_cases hplus : cs.head? = some '+' ∧ cs ≠ ['+']
  · cases h with
    | last => simp_all
    | @next c cs _ h =>
      obtain rfl : c = '+' := by simpa using hplus.1
      exact ⟨['+'], by simp, cs, rfl, h, fun _ => readNat_plus h.filter_ne_nil⟩
    | @skip c cs _ h =>
      obtain rfl : c = '+' := by simpa using hplus.1
      exact ⟨['+', '_'], by simp, cs, rfl, h, fun _ => readNat_plus h.filter_ne_nil⟩
  · refine ⟨[], by simp, cs, rfl, h, fun radix limit => ?_⟩
    by_cases hone : cs = ['+']
    · subst hone
      rfl
    · refine readNat_of_head?_ne h.filter_ne_nil ?_ limit
      cases h <;> simp_all

/-- Digits that are read are grouped, behind what may lead them. -/
theorem exists_of_leadingDigits?_eq_some (h : leadingDigits? cs = some ds) :
    ∃ lead ∈ leads, ∃ body, cs = lead ++ body ∧ Grouped body ∧ ∀ radix limit,
      readNat radix limit ds = readDigits radix limit 0 (body.filter (· != '_')) := by
  unfold leadingDigits? at h
  obtain ⟨hgrouped, rfl⟩ := ungrouped?_eq_some_iff.1 h
  obtain ⟨lead, hlead, body, hcut, hbody, hread⟩ := hgrouped.exists_lead
  split at hcut
  · next hhead =>
    obtain ⟨rest, rfl⟩ : ∃ rest, cs = '_' :: rest := by
      cases cs <;> simp_all
    refine ⟨'_' :: lead, ?_, body, congrArg ('_' :: ·) hcut, hbody, hread⟩
    simp only [leads, List.mem_cons] at hlead ⊢
    grind
  · refine ⟨lead, ?_, body, hcut, hbody, hread⟩
    simp only [leads, List.mem_cons] at hlead ⊢
    grind

/-- Capital digits are read as small ones. -/
theorem readNat_toLower (limit : Nat) (cs : List Char) :
    readNat radix limit (cs.map Char.toLower) = readNat radix limit cs := by
  by_cases hne : cs = []
  · subst hne
    rfl
  have hhead : (cs.map Char.toLower).head? = some '+' ↔ cs.head? = some '+' := by
    have hplus {c : Char} : c.toLower = '+' ↔ c = '+' := toLower_eq_iff rfl
    cases cs <;> simp [hplus]
  by_cases hplus : cs.head? = some '+'
  · obtain ⟨c, cs, rfl⟩ := List.exists_cons_of_ne_nil hne
    obtain rfl : c = '+' := by simpa using hplus
    cases cs with
    | nil => rfl
    | cons d cs =>
      have hmap : (('+' :: d :: cs).map Char.toLower) = '+' :: ((d :: cs).map Char.toLower) := rfl
      rw [hmap, readNat_plus (by simp), readNat_plus (by simp), readDigits_toLower]
  · rw [readNat_of_head?_ne (by simpa using hne) (hhead.not.2 hplus), readNat_of_head?_ne hne hplus,
      readDigits_toLower]

theorem leadingDigits?_toLower (cs : List Char) : leadingDigits? (cs.map Char.toLower) =
    (leadingDigits? cs).map (List.map Char.toLower) := by
  have hunderscore {c : Char} : c.toLower = '_' ↔ c = '_' := toLower_eq_iff rfl
  have hstrip : (if (cs.map Char.toLower).head? = some '_' then (cs.map Char.toLower).tail
      else cs.map Char.toLower) =
      (if cs.head? = some '_' then cs.tail else cs).map Char.toLower := by
    cases cs with
    | nil => rfl
    | cons c cs => by_cases hc : c = '_' <;> simp [hunderscore, hc]
  unfold leadingDigits?
  rw [hstrip, ungrouped?_toLower]

/-! ## Marks -/

/-- Whether a text marks the base of the digits after it, which may be asked for to be `base`. No
mark stands for the base that is asked for, or for ten. -/
inductive Mark (base : Nat) : List Char → Nat → Prop
  | asked (h : base ≠ 0) : Mark base [] base
  | ten (h : base = 0) : Mark base [] 10
  | marked {c : Char} {radix : Nat} (hc : markedBase? c.toLower = some radix)
      (h : base = 0 ∨ base = radix) : Mark base ['0', c] radix

/-- A numeral with a mark is of the base of the mark. -/
theorem markedNumeral?_eq_some_iff : markedNumeral? base cs = some (radix, ds) ↔
    ∃ c, cs = '0' :: c :: ds ∧ markedBase? c = some radix ∧ (base = 0 ∨ base = radix) := by
  unfold markedNumeral?
  split
  · next c rest =>
    simp only [Option.bind_eq_some_iff, Option.ite_none_right_eq_some, Option.some.injEq,
      Prod.mk.injEq, List.cons.injEq, true_and]
    grind
  · next hno =>
    simp only [reduceCtorEq, false_iff]
    rintro ⟨c, rfl, -⟩
    exact hno c ds rfl

/-- No digit is a mark. -/
theorem digitValue?_of_markedBase? (hc : markedBase? c = some radix) :
    digitValue? radix c = none ∧ digitValue? 10 c = none ∧ c ≠ '_' := by
  unfold markedBase? at hc
  split at hc
  · cases hc; decide
  · cases hc; decide
  · cases hc; decide
  · cases hc

/-- Only zero may begin with a zero. -/
theorem hasIdleZero_eq_false_iff :
    hasIdleZero cs = false ↔ (cs.head? = some '0' → ∀ c ∈ cs, c = '0' ∨ c = '_') := by
  unfold hasIdleZero
  simp only [Bool.and_eq_false_iff, beq_eq_false_iff_ne, List.any_eq_false]
  grind

theorem hasIdleZero_toLower (cs : List Char) :
    hasIdleZero (cs.map Char.toLower) = hasIdleZero cs := by
  have hzero {c : Char} : c.toLower = '0' ↔ c = '0' := toLower_eq_iff rfl
  have hunderscore {c : Char} : c.toLower = '_' ↔ c = '_' := toLower_eq_iff rfl
  rw [Bool.eq_iff_iff, ← not_iff_not, Bool.not_eq_true, Bool.not_eq_true, hasIdleZero_eq_false_iff,
    hasIdleZero_eq_false_iff]
  simp [hzero, hunderscore]

/-- A numeral that is read has a mark that goes with its base, or none. -/
theorem exists_of_anyNumeral?_eq_some
    (h : anyNumeral? base (cs.map Char.toLower) = some (radix, ds)) : ∃ mark body,
      cs = mark ++ body ∧ Mark base mark radix ∧ ds = body.map Char.toLower ∧
        (base = 0 → mark = [] → hasIdleZero body = false) := by
  unfold anyNumeral? at h
  split at h
  · next hmarked =>
    obtain rfl := Option.some.inj h
    obtain ⟨c, hcs, hc, hbase⟩ := markedNumeral?_eq_some_iff.1 hmarked
    obtain ⟨z, cs, rfl, hz, hcs⟩ := List.map_eq_cons_iff.1 hcs
    obtain ⟨c, body, rfl, rfl, rfl⟩ := List.map_eq_cons_iff.1 hcs
    obtain rfl := (toLower_eq_iff rfl).1 hz
    exact ⟨['0', c], body, rfl, .marked hc hbase, rfl, nofun⟩
  · split at h
    · next hbase =>
      cases h
      exact ⟨[], cs, rfl, .asked hbase, rfl, fun h => absurd h hbase⟩
    · next hbase =>
      split at h
      · cases h
      · next hidle =>
        cases h
        rw [hasIdleZero_toLower, Bool.not_eq_true] at hidle
        exact ⟨[], cs, rfl, .ten (not_not.1 hbase), rfl, fun _ _ => hidle⟩

/-- A mark that goes with the base is passed over. -/
theorem anyNumeral?_append (hmark : Mark base mark radix)
    (hzero : base = 0 → mark = [] → hasIdleZero body = false)
    (hno : mark = [] → markedNumeral? base (body.map Char.toLower) = none) :
    anyNumeral? base ((mark ++ body).map Char.toLower) = some (radix, body.map Char.toLower) := by
  unfold anyNumeral?
  cases hmark with
  | asked h =>
    rw [List.nil_append, hno rfl]
    simp [h]
  | ten h =>
    rw [List.nil_append, hno rfl]
    simp [h, hasIdleZero_toLower, hzero h rfl]
  | @marked c _ hc h =>
    have hcs :
        (['0', c] ++ body).map Char.toLower = '0' :: c.toLower :: body.map Char.toLower := rfl
    rw [hcs, markedNumeral?_eq_some_iff.2 ⟨c.toLower, rfl, hc, h⟩]

/-- A run of digits begins with one. -/
theorem DigitRun.exists_head {v : Nat} (h : DigitRun radix v (c :: cs) n) :
    ∃ d, digitValue? radix c = some d := by
  cases h with
  | last hc | next hc _ | skip hc _ => exact ⟨_, hc⟩

/-- Where digits begin without a mark, none is found: the second character is a digit too, or groups
them. -/
theorem markedNumeral?_digits (hmark : Mark base [] radix) (hlead : lead ∈ leads)
    (hrun : DigitRun radix 0 run n) (hrest : rest = [] ∨ radix ≤ n) :
    markedNumeral? base ((lead ++ (run ++ rest)).map Char.toLower) = none := by
  refine Option.eq_none_iff_forall_ne_some.2 fun ⟨marked, ds⟩ hfound => ?_
  obtain ⟨c, hcs, hc, hbase⟩ := markedNumeral?_eq_some_iff.1 hfound
  obtain ⟨hdigit, hdecimal, hunderscore⟩ := digitValue?_of_markedBase? hc
  have hnone : digitValue? radix c = none := by
    cases hmark with
    | asked h => exact hbase.resolve_left h ▸ hdigit
    | ten => exact hdecimal
  obtain rfl : lead = [] := by
    refine (head?_of_mem_leads hlead).resolve_right fun hhead => ?_
    cases lead with
    | nil => simp at hhead
    | cons e lead =>
      obtain rfl := (toLower_eq_iff rfl).1 (List.cons.inj hcs).1
      simp at hhead
  cases hrun with
  | last hfirst =>
    have hlt := lt_of_digitValue? hfirst
    rcases hrest with rfl | hle
    · simp at hcs
    · omega
  | next _ h =>
    obtain ⟨e, cs, rfl⟩ := List.exists_cons_of_ne_nil h.grouped.ne_nil
    obtain ⟨d, hd⟩ := h.exists_head
    obtain rfl : e.toLower = c := (List.cons.inj (List.cons.inj hcs).2).1
    rw [digitValue?_toLower, hd] at hnone
    cases hnone
  | skip =>
    obtain rfl : '_' = c := (List.cons.inj (List.cons.inj hcs).2).1
    exact hunderscore rfl

theorem Mark.radix_le (hbase : base = 0 ∨ 2 ≤ base ∧ base ≤ 36) (h : Mark base mark radix) :
    radix ≤ 36 := by
  cases h with
  | asked h => omega
  | ten => decide
  | @marked c _ hc h =>
    unfold markedBase? at hc
    split at hc <;> cases hc <;> decide

/-! ## Signs -/

/-- The texts of a sign, and whether it turns the number. -/
inductive Sign : List Char → Bool → Prop
  | none : Sign [] false
  | plus : Sign ['+'] false
  | minus : Sign ['-'] true

/-- What is read as a sign is one, or nothing. -/
theorem exists_of_readSign {negative : Bool} (h : readSign cs = (negative, body)) :
    ∃ sign, cs = sign ++ body ∧ Sign sign negative ∧ (sign = [] → body.head? ≠ some '+') := by
  unfold readSign at h
  split at h
  · cases h
    exact ⟨['-'], rfl, .minus, nofun⟩
  · cases h
    exact ⟨['+'], rfl, .plus, nofun⟩
  · next hplus =>
    cases h
    refine ⟨[], rfl, .none, fun _ hhead => ?_⟩
    cases cs with
    | nil => cases hhead
    | cons c cs =>
      obtain rfl : c = '+' := by simpa using hhead
      exact hplus cs rfl

theorem readSign_append {sign : List Char} {negative : Bool} (h : Sign sign negative)
    (hbody : sign = [] → body.head? ≠ some '+' ∧ body.head? ≠ some '-') :
    readSign (sign ++ body) = (negative, body) := by
  cases h with
  | plus | minus => rfl
  | none =>
    obtain ⟨hplus, hminus⟩ := hbody rfl
    rw [List.nil_append]
    unfold readSign
    split
    · exact absurd rfl hminus
    · exact absurd rfl hplus
    · rfl

/-! ## Parts together -/

/-- The digits of a numeral, behind its mark and what leads them. -/
theorem numeralDigits?_eq (base : Nat) (cs : List Char) : numeralDigits? base cs =
    (anyNumeral? base cs).bind fun p => (leadingDigits? p.2).map fun ds => (p.1, ds) := by
  unfold numeralDigits? leadingDigits?
  cases anyNumeral? base cs with
  | none => rfl
  | some p =>
    cases hds : ungrouped? (if p.2.head? = some '_' then p.2.tail else p.2) <;> simp [hds]

/-- The digits that are found have a mark and what may stand in front of them before them. -/
theorem exists_of_numeralDigits?_eq_some
    (h : numeralDigits? base (cs.map Char.toLower) = some (radix, ds)) : ∃ mark lead body,
      cs = mark ++ (lead ++ body) ∧ Mark base mark radix ∧ lead ∈ leads ∧ Grouped body ∧
        (base = 0 → mark = [] → hasIdleZero (lead ++ body) = false) ∧
        ∀ limit, readNat radix limit ds = readDigits radix limit 0 (body.filter (· != '_')) := by
  rw [numeralDigits?_eq] at h
  obtain ⟨⟨radix, rest⟩, hany, hmapped⟩ := Option.bind_eq_some_iff.1 h
  obtain ⟨ds, hds, heq⟩ := Option.map_eq_some_iff.1 hmapped
  cases heq
  obtain ⟨mark, rest, rfl, hmark, rfl, hzero⟩ := exists_of_anyNumeral?_eq_some hany
  rw [leadingDigits?_toLower] at hds
  obtain ⟨digits, hdigits, rfl⟩ := Option.map_eq_some_iff.1 hds
  obtain ⟨lead, hlead, body, rfl, hbody, hread⟩ := exists_of_leadingDigits?_eq_some hdigits
  refine ⟨mark, lead, body, rfl, hmark, hlead, hbody, hzero, fun limit => ?_⟩
  rw [readNat_toLower, hread]

end ExprLang
