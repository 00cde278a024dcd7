import ExprLang.Proofs.Values.Forms

/-!
# Order

Not all ordinary values compare: numbers do with numbers, strings with strings, and tuples and lists
with their like, by the first items that differ, if these compare. Where they do, the order is
strict and agrees with equality (`order_strict`): turned round it is the order the other way round
(`Value.Ordinary.turns`), and what is less than something less is less
(`Value.Ordinary.order_trans`).

Items that are equal are passed over, even where they do not compare. So in a chain of three the
items that decide may stand at different places, and the first is then compared with an item that
equals the one it was compared with before. That comes to the same, as the order of ordinary values
depends on their forms alone (`Value.order_form`).
-/

namespace ExprLang

/-! ## Comparisons that succeed -/

theorem textOrdering_eq_cmp (a b : String) : textOrdering a b = cmp a b := by
  unfold textOrdering
  rcases lt_trichotomy a b with h | rfl | h
  · rw [if_neg h.ne, if_pos h, h.cmp_eq_lt]
  · rw [if_pos rfl, cmp_self_eq_eq]
  · rw [if_neg h.ne', if_neg h.not_gt, h.cmp_eq_gt]

/-- Integers and booleans are ordered as numbers. -/
theorem order_numbers {a b : Value} {x y : Int64} (hx : a.number? = some (.int x))
    (hy : b.number? = some (.int y)) (symbol : String) :
    a.order symbol b = .ok (some (cmp x.toInt y.toInt)) := by
  have hordering : (Number.int x).ordering? (.int y) = some (some (cmp x.toInt y.toInt)) := by
    simp [Number.ordering?, Int64.lt_iff_toInt_lt, cmp, cmpUsing]
  cases a <;> cases hx <;> cases b <;> cases hy <;>
    simp only [Value.order, Value.number?, hordering]

/-- Texts are ordered by their characters. -/
theorem order_texts (s t symbol : String) :
    (Value.str s).order symbol (.str t) = .ok (some (cmp s t)) := by
  rw [Value.order, textOrdering_eq_cmp]

theorem eq_numbers {a b : Value} {x y : Int64} (hx : a.number? = some (.int x))
    (hy : b.number? = some (.int y)) : a.eq b = (x == y) := by
  cases a <;> cases hx <;> cases b <;> cases hy <;> rfl

theorem eq_texts (s t : String) : (Value.str s).eq (.str t) = (s == t) := rfl

/-! ## Equal values compare alike -/

/-- Items are ordered by their forms if each pair is. -/
theorem orderItems_forms {as bs : List Value} {symbol symbol' : String}
    (has : ∀ a ∈ as, a.Ordinary) (hbs : ∀ b ∈ bs, b.Ordinary)
    (h : ∀ a ∈ as, ∀ b ∈ bs, (a.form.order symbol' b.form).toOption = (a.order symbol b).toOption) :
    (Value.orderItems symbol' (Value.forms as) (Value.forms bs)).toOption =
      (Value.orderItems symbol as bs).toOption := by
  induction as generalizing bs with
  | nil => cases bs <;> rfl
  | cons a as ih =>
    cases bs with
    | nil => rfl
    | cons b bs =>
      obtain ⟨ha, has⟩ := List.forall_mem_cons.1 has
      obtain ⟨hb, hbs⟩ := List.forall_mem_cons.1 hbs
      simp only [Value.forms, Value.orderItems, Value.eq_form ha hb]
      split
      · exact ih has hbs fun a ha b hb => h a (.tail _ ha) b (.tail _ hb)
      · exact h a (.head _) b (.head _)

/-- The order of values depends on their forms alone. -/
theorem Value.order_form {a b : Value} (ha : a.Ordinary) (hb : b.Ordinary)
    (symbol symbol' : String) :
    (a.form.order symbol' b.form).toOption = (a.order symbol b).toOption := by
  induction ha generalizing b with
  | tuple has ih =>
    cases hb with
    | tuple hbs => exact orderItems_forms has hbs fun a ha b hb => ih a ha (hbs b hb)
    | _ => rfl
  | list has ih =>
    cases hb with
    | list hbs => exact orderItems_forms has hbs fun a ha b hb => ih a ha (hbs b hb)
    | _ => rfl
  | _ => cases hb <;> rfl

/-- Where two values compare, equal ones compare in the same way, whatever operator asks. -/
theorem Value.order_of_form {a a' b b' : Value} (ha : a.Ordinary) (ha' : a'.Ordinary)
    (hb : b.Ordinary) (hb' : b'.Ordinary) (hform : a.form = a'.form) (hform' : b.form = b'.form)
    {symbol symbol' : String} {o : Option Ordering} (h : a.order symbol b = .ok o) :
    a'.order symbol' b' = .ok o := by
  have hsame : (a'.order symbol' b').toOption = (a.order symbol b).toOption := by
    rw [← Value.order_form ha hb symbol symbol, ← Value.order_form ha' hb' symbol' symbol, hform,
      hform']
  rw [h] at hsame
  cases hok : a'.order symbol' b' with
  | ok o' =>
    rw [hok] at hsame
    cases hsame
    rfl
  | error e =>
    rw [hok] at hsame
    cases hsame

/-! ## Turned round -/

/-- Whether the comparison of two values, where it succeeds, does so the other way round too, with
the order turned round, and finds them equal exactly if they are. -/
def Value.Turns (a b : Value) : Prop :=
  ∀ (symbol : String) (o : Option Ordering), a.order symbol b = .ok o → ∃ ord, o = some ord ∧
    (∀ symbol', b.order symbol' a = .ok (some ord.swap)) ∧ (ord = .eq ↔ a.eq b = true)

/-- Items turn if each pair does. -/
theorem orderItems_turns {as bs : List Value} (has : ∀ a ∈ as, a.Ordinary)
    (hbs : ∀ b ∈ bs, b.Ordinary) (hturns : ∀ a ∈ as, ∀ b ∈ bs, a.Turns b) {symbol : String}
    {o : Option Ordering} (h : Value.orderItems symbol as bs = .ok o) : ∃ ord, o = some ord ∧
      (∀ symbol', Value.orderItems symbol' bs as = .ok (some ord.swap)) ∧
      (ord = .eq ↔ Value.eqItems as bs = true) := by
  induction as generalizing bs with
  | nil =>
    cases bs <;> cases h
    · exact ⟨.eq, rfl, fun _ => rfl, by simp [Value.eqItems]⟩
    · exact ⟨.lt, rfl, fun _ => rfl, by simp [Value.eqItems]⟩
  | cons a as ih =>
    cases bs with
    | nil =>
      cases h
      exact ⟨.gt, rfl, fun _ => rfl, by simp [Value.eqItems]⟩
    | cons b bs =>
      obtain ⟨ha, has⟩ := List.forall_mem_cons.1 has
      obtain ⟨hb, hbs⟩ := List.forall_mem_cons.1 hbs
      simp only [Value.orderItems, Value.eqItems, Value.eq_comm_of_ordinary hb ha] at h ⊢
      cases hequal : a.eq b with
      | true =>
        rw [hequal] at h
        simpa using ih has hbs (fun a ha b hb => hturns a (.tail _ ha) b (.tail _ hb)) h
      | false =>
        rw [hequal] at h
        obtain ⟨ord, rfl, hback, heq⟩ := hturns a (.head _) b (.head _) symbol o h
        exact ⟨ord, rfl, hback, by simp [heq, hequal]⟩

theorem Value.Turns.of_numbers {a b : Value} {x y : Int64} (hx : a.number? = some (.int x))
    (hy : b.number? = some (.int y)) : a.Turns b := by
  intro symbol o h
  rw [order_numbers hx hy] at h
  cases h
  refine ⟨_, rfl, fun symbol' => ?_, ?_⟩
  · rw [order_numbers hy hx, cmp_swap]
  · rw [cmp_eq_eq_iff, eq_numbers hx hy, beq_iff_eq, Int64.toInt_inj]

theorem Value.Turns.of_texts (s t : String) : (Value.str s).Turns (.str t) := by
  intro symbol o h
  rw [order_texts] at h
  cases h
  refine ⟨_, rfl, fun symbol' => ?_, ?_⟩
  · rw [order_texts, cmp_swap]
  · rw [cmp_eq_eq_iff, eq_texts, beq_iff_eq]

/-- By recursion on the values: so do all, nested ones too. -/
theorem Value.Ordinary.turns {a b : Value} (ha : a.Ordinary) (hb : b.Ordinary) : a.Turns b := by
  induction ha generalizing b with
  | tuple has ih =>
    cases hb with
    | tuple hbs =>
      exact fun _ _ h => orderItems_turns has hbs (fun a ha b hb => ih a ha (hbs b hb)) h
    | _ => exact fun _ _ h => nomatch h
  | list has ih =>
    cases hb with
    | list hbs =>
      exact fun _ _ h => orderItems_turns has hbs (fun a ha b hb => ih a ha (hbs b hb)) h
    | _ => exact fun _ _ h => nomatch h
  | bool | int =>
    cases hb with
    | bool | int => exact .of_numbers rfl rfl
    | _ => exact fun _ _ h => nomatch h
  | str s =>
    cases hb with
    | str t => exact .of_texts s t
    | _ => exact fun _ _ h => nomatch h
  | none | builtin => cases hb <;> exact fun _ _ h => nomatch h

/-! ## Chains -/

/-- A value that is less is not equal. -/
theorem Value.Ordinary.ne_of_less {a b : Value} (ha : a.Ordinary) (hb : b.Ordinary)
    {symbol : String} (h : a.order symbol b = .ok (some .lt)) : ¬a.eq b = true := by
  obtain ⟨ord, hord, -, hequal⟩ := ha.turns hb symbol _ h
  cases hord
  rw [← hequal]
  exact nofun

/-- The order of items is transitive if that of each three is. -/
theorem orderItems_trans {as bs cs : List Value} (has : ∀ a ∈ as, a.Ordinary)
    (hbs : ∀ b ∈ bs, b.Ordinary) (hcs : ∀ c ∈ cs, c.Ordinary) {symbol symbol' symbol'' : String}
    (htrans : ∀ a ∈ as, ∀ b ∈ bs, ∀ c ∈ cs, a.order symbol b = .ok (some .lt) →
      b.order symbol' c = .ok (some .lt) → a.order symbol'' c = .ok (some .lt))
    (hab : Value.orderItems symbol as bs = .ok (some .lt))
    (hbc : Value.orderItems symbol' bs cs = .ok (some .lt)) :
    Value.orderItems symbol'' as cs = .ok (some .lt) := by
  induction as generalizing bs cs with
  | nil =>
    cases cs with
    | nil => cases bs <;> cases hbc
    | cons c cs => rfl
  | cons a as ih =>
    cases bs with
    | nil => cases hab
    | cons b bs =>
      cases cs with
      | nil => cases hbc
      | cons c cs =>
        obtain ⟨ha, has⟩ := List.forall_mem_cons.1 has
        obtain ⟨hb, hbs⟩ := List.forall_mem_cons.1 hbs
        obtain ⟨hc, hcs⟩ := List.forall_mem_cons.1 hcs
        simp only [Value.orderItems] at hab hbc ⊢
        have hstep (h : a.order symbol'' c = .ok (some .lt)) :
            (if a.eq c then Value.orderItems symbol'' as cs else a.order symbol'' c) =
              .ok (some .lt) := by
          rw [if_neg (ha.ne_of_less hc h), h]
        by_cases hequal : a.eq b = true <;> by_cases hequal' : b.eq c = true
        · rw [if_pos hequal] at hab
          rw [if_pos hequal'] at hbc
          rw [if_pos (Value.eq_trans_of_ordinary ha hb hc hequal hequal')]
          exact ih has hbs hcs (fun a ha b hb c hc =>
            htrans a (.tail _ ha) b (.tail _ hb) c (.tail _ hc)) hab hbc
        · rw [if_neg hequal'] at hbc
          have hform := (Value.eq_iff_form ha hb).1 hequal
          exact hstep (Value.order_of_form hb ha hc hc hform.symm rfl hbc)
        · rw [if_neg hequal] at hab
          have hform := (Value.eq_iff_form hb hc).1 hequal'
          exact hstep (Value.order_of_form ha ha hb hc rfl hform hab)
        · rw [if_neg hequal] at hab
          rw [if_neg hequal'] at hbc
          exact hstep (htrans a (.head _) b (.head _) c (.head _) hab hbc)

theorem less_numbers_iff {a b : Value} {x y : Int64} (hx : a.number? = some (.int x))
    (hy : b.number? = some (.int y)) {symbol : String} :
    a.order symbol b = .ok (some .lt) ↔ x.toInt < y.toInt := by
  rw [order_numbers hx hy, Except.ok.injEq, Option.some.injEq, cmp_eq_lt_iff]

theorem less_texts_iff {s t symbol : String} :
    (Value.str s).order symbol (.str t) = .ok (some .lt) ↔ s < t := by
  rw [order_texts, Except.ok.injEq, Option.some.injEq, cmp_eq_lt_iff]

/-- By recursion on the values: the order is transitive. -/
theorem Value.Ordinary.order_trans {a b c : Value} (ha : a.Ordinary) (hb : b.Ordinary)
    (hc : c.Ordinary) {symbol symbol' : String} (hab : a.order symbol b = .ok (some .lt))
    (hbc : b.order symbol' c = .ok (some .lt)) (symbol'' : String) :
    a.order symbol'' c = .ok (some .lt) := by
  induction ha generalizing b c with
  | tuple has ih =>
    cases hb with
    | tuple hbs =>
      cases hc with
      | tuple hcs =>
        exact orderItems_trans has hbs hcs (fun a ha b hb c hc =>
          ih a ha (hbs b hb) (hcs c hc)) hab hbc
      | _ => cases hbc
    | _ => cases hab
  | list has ih =>
    cases hb with
    | list hbs =>
      cases hc with
      | list hcs =>
        exact orderItems_trans has hbs hcs (fun a ha b hb c hc =>
          ih a ha (hbs b hb) (hcs c hc)) hab hbc
      | _ => cases hbc
    | _ => cases hab
  | bool | int =>
    cases hb with
    | bool | int =>
      cases hc with
      | bool | int =>
        rw [less_numbers_iff rfl rfl] at hab hbc ⊢
        exact hab.trans hbc
      | _ => cases hbc
    | _ => cases hab
  | str s =>
    cases hb with
    | str t =>
      cases hc with
      | str u =>
        rw [less_texts_iff] at hab hbc ⊢
        exact hab.trans hbc
      | _ => cases hbc
    | _ => cases hab
  | none | builtin => cases hb <;> cases hab

/-! ## Main statement -/

/-- On ordinary values the order is strict and agrees with equality. Where a comparison succeeds it
does so the other way round too, with the order turned round, and the values are found equal exactly
if they are. If the first is less than the second and the second less than the third, then the first
compares with the third too, and is less. The operators that ask do not matter. -/
theorem order_strict :
    (∀ {a b : Value}, a.Ordinary → b.Ordinary → ∀ (symbol : String) (o : Option Ordering),
      a.order symbol b = .ok o → ∃ ord, o = some ord ∧
        (∀ symbol', b.order symbol' a = .ok (some ord.swap)) ∧ (ord = .eq ↔ a.eq b = true)) ∧
    ∀ {a b c : Value}, a.Ordinary → b.Ordinary → c.Ordinary → ∀ {symbol symbol' : String},
      a.order symbol b = .ok (some .lt) → b.order symbol' c = .ok (some .lt) →
      ∀ symbol'', a.order symbol'' c = .ok (some .lt) :=
  ⟨fun ha hb => ha.turns hb, fun ha hb hc _ _ hab hbc => ha.order_trans hb hc hab hbc⟩

/-- Tuples with equal items before the first that differ, some of which have no order. -/
theorem order_strict_passing :
    let a := Value.tuple 0 [.bool true, .none, .int 1]
    let b := Value.tuple 1 [.int 1, .none, .int 2]
    let c := Value.tuple 2 [.int 2]
    a.Ordinary ∧ b.Ordinary ∧ c.Ordinary ∧ b.order ">" a = .ok (some .gt) ∧
      a.order "<" c = .ok (some .lt) := by
  intro a b c
  have hint (n : Int64) : (Value.int n).Ordinary := .int n
  have ha : a.Ordinary := .tuple (by simp [Value.Ordinary.bool, Value.Ordinary.none, hint])
  have hb : b.Ordinary := .tuple (by simp [Value.Ordinary.none, hint])
  have hc : c.Ordinary := .tuple (by simp [hint])
  have hab : a.order "<" b = .ok (some .lt) := rfl
  have hbc : b.order "<" c = .ok (some .lt) := rfl
  obtain ⟨ord, hord, hback, -⟩ := order_strict.1 ha hb "<" _ hab
  cases hord
  exact ⟨ha, hb, hc, hback ">", order_strict.2 ha hb hc hab hbc "<"⟩

end ExprLang
