import ExprLang.Proofs.Evaluating.Keys

/-!
# Forms of values

Ordinary values are built from `None`, truth values, integers, strings, builtin functions, tuples
and lists. Two of them are equal exactly if they have the same form (`Value.eq_iff_form`): the form
has integers in place of truth values, and its tuples and lists have no identity of their own. So on
ordinary values equality is as good as that of forms, and whatever depends on forms alone, like the
hash, cannot tell equal values apart.

Where the keys of a dict are ordinary and no two of them are equal (`OrdinaryKeys`), there is at
most one entry with a key equal to a given one, so the entry found first is the entry with such a
key (`OrdinaryKeys.find?_eq_some`).
-/

namespace ExprLang

/-! ## Ordinary values -/

/-- Whether a value is built from `None`, truth values, integers, strings, builtin functions, tuples
and lists. -/
inductive Value.Ordinary : Value → Prop
  | none : Ordinary .none
  | bool (b : Bool) : Ordinary (.bool b)
  | int (n : Int64) : Ordinary (.int n)
  | str (s : String) : Ordinary (.str s)
  | builtin (b : Builtin) : Ordinary (.builtin b)
  | tuple {id : Identity} {items : List Value} (h : ∀ v ∈ items, Ordinary v) :
      Ordinary (.tuple id items)
  | list {id : Identity} {items : List Value} (h : ∀ v ∈ items, Ordinary v) :
      Ordinary (.list id items)

mutual
/-- The value with integers in place of truth values, and with tuples and lists that all have the
same identity. -/
def Value.form : Value → Value
  | .bool b => .int (boolInt b)
  | .tuple _ items => .tuple 0 (Value.forms items)
  | .list _ items => .list 0 (Value.forms items)
  | v => v

/-- The forms of values. -/
def Value.forms : List Value → List Value
  | [] => []
  | v :: vs => v.form :: Value.forms vs
end

theorem forms_eq_map (vs : List Value) : Value.forms vs = vs.map Value.form := by
  induction vs with
  | nil => rfl
  | cons v vs ih => rw [Value.forms, ih, List.map_cons]

theorem eqItems_iff {as bs : List Value} :
    Value.eqItems as bs = true ↔ List.Forall₂ (fun a b => a.eq b = true) as bs := by
  induction as generalizing bs with
  | nil => cases bs <;> simp [Value.eqItems]
  | cons a as ih => cases bs <;> simp [Value.eqItems, ih]

/-- Items are equal if their forms are the same, if this goes for each pair. -/
theorem eqItems_iff_forms {as bs : List Value}
    (h : ∀ a ∈ as, ∀ b ∈ bs, a.eq b = true ↔ a.form = b.form) :
    Value.eqItems as bs = true ↔ Value.forms as = Value.forms bs := by
  induction as generalizing bs with
  | nil => cases bs <;> simp [Value.eqItems, Value.forms]
  | cons a as ih =>
    cases bs with
    | nil => simp [Value.eqItems, Value.forms]
    | cons b bs =>
      have hitems := ih fun a ha b hb => h a (.tail _ ha) b (.tail _ hb)
      simp [Value.eqItems, Value.forms, h a (.head _) b (.head _), hitems]

/-- Ordinary values are equal exactly if they have the same form. -/
theorem Value.eq_iff_form {a b : Value} (ha : a.Ordinary) (hb : b.Ordinary) :
    a.eq b = true ↔ a.form = b.form := by
  induction ha generalizing b with
  | tuple has ih =>
    cases hb with
    | tuple hbs =>
      simp only [Value.eq, form, tuple.injEq, true_and]
      exact eqItems_iff_forms fun a ha b hb => ih a ha (hbs b hb)
    | _ => simp [Value.eq, number?, same, form]
  | list has ih =>
    cases hb with
    | list hbs =>
      simp only [Value.eq, form, list.injEq, true_and]
      exact eqItems_iff_forms fun a ha b hb => ih a ha (hbs b hb)
    | _ => simp [Value.eq, number?, same, form]
  | _ => cases hb <;> simp [Value.eq, number?, same, form, Number.beq]

/-- Ordinary values are equal to themselves. -/
theorem Value.eq_self_of_ordinary {a : Value} (ha : a.Ordinary) : a.eq a = true :=
  (Value.eq_iff_form ha ha).2 rfl

/-- Equality of ordinary values is transitive. -/
theorem Value.eq_trans_of_ordinary {a b c : Value} (ha : a.Ordinary) (hb : b.Ordinary)
    (hc : c.Ordinary) (hab : a.eq b = true) (hbc : b.eq c = true) : a.eq c = true :=
  (Value.eq_iff_form ha hc).2
    (((Value.eq_iff_form ha hb).1 hab).trans ((Value.eq_iff_form hb hc).1 hbc))

/-- Equality of ordinary values is symmetric. -/
theorem Value.eq_comm_of_ordinary {a b : Value} (ha : a.Ordinary) (hb : b.Ordinary) :
    a.eq b = b.eq a := by
  rw [Bool.eq_iff_iff, Value.eq_iff_form ha hb, Value.eq_iff_form hb ha, eq_comm]

/-! ## Forms of forms -/

theorem forms_of_fixed {vs : List Value} (h : ∀ v ∈ vs, v.form.form = v.form) :
    Value.forms (Value.forms vs) = Value.forms vs := by
  rw [forms_eq_map, forms_eq_map, List.map_map]
  exact List.map_congr_left h

/-- A form is its own form. -/
theorem Value.form_form {a : Value} (ha : a.Ordinary) : a.form.form = a.form := by
  induction ha with
  | tuple _ ih => simp only [form, forms_of_fixed ih]
  | list _ ih => simp only [form, forms_of_fixed ih]
  | _ => rfl

/-- The form of an ordinary value is ordinary. -/
theorem Value.ordinary_form {a : Value} (ha : a.Ordinary) : a.form.Ordinary := by
  induction ha with
  | tuple _ ih => exact .tuple (forms_eq_map _ ▸ List.forall_mem_map.2 ih)
  | list _ ih => exact .list (forms_eq_map _ ▸ List.forall_mem_map.2 ih)
  | none => exact .none
  | bool b => exact .int _
  | int n => exact .int n
  | str s => exact .str s
  | builtin b => exact .builtin b

/-- Forms are equal as their values are. -/
theorem Value.eq_form {a b : Value} (ha : a.Ordinary) (hb : b.Ordinary) :
    a.form.eq b.form = a.eq b := by
  rw [Bool.eq_iff_iff, Value.eq_iff_form (ordinary_form ha) (ordinary_form hb), form_form ha,
    form_form hb, Value.eq_iff_form ha hb]

/-! ## Entries -/

/-- Whether the keys of entries are ordinary and no two of them are equal. -/
structure OrdinaryKeys (entries : List (Value × Value)) : Prop where
  ordinary : ∀ e ∈ entries, e.1.Ordinary
  distinct : (entries.map (·.1.form)).Nodup

namespace OrdinaryKeys

variable {entries : List (Value × Value)} {k : Value} {e e' : Value × Value}

/-- Proper keys are ordinary if each is. -/
theorem of_proper (hkeys : ProperKeys (entries.map (·.1)))
    (hordinary : ∀ e ∈ entries, e.1.Ordinary) : OrdinaryKeys entries := by
  refine ⟨hordinary, List.pairwise_map.2 ?_⟩
  have hdistinct := List.pairwise_map.1 hkeys.distinct
  refine hdistinct.imp_of_mem fun {e e'} he he' hne hform => ?_
  rw [(Value.eq_iff_form (hordinary e he) (hordinary e' he')).2 hform] at hne
  cases hne

/-- Entries with equal keys are one and the same. -/
theorem eq_of_form (h : OrdinaryKeys entries) (he : e ∈ entries) (he' : e' ∈ entries)
    (hform : e.1.form = e'.1.form) : e = e' :=
  List.inj_on_of_nodup_map h.distinct he he' hform

/-- The entry found is the one with an equal key. -/
theorem find?_eq_some (h : OrdinaryKeys entries) (hk : k.Ordinary) :
    (entries.find? fun e => e.1.eq k) = some e ↔ e ∈ entries ∧ e.1.form = k.form := by
  constructor
  · intro hfound
    have hmem := List.mem_of_find?_eq_some hfound
    have heq := List.find?_some (p := fun e : Value × Value => e.1.eq k) hfound
    exact ⟨hmem, (Value.eq_iff_form (h.ordinary e hmem) hk).1 heq⟩
  · rintro ⟨hmem, hform⟩
    have hsome : (entries.find? fun e => e.1.eq k).isSome := by
      rw [List.find?_isSome]
      exact ⟨e, hmem, (Value.eq_iff_form (h.ordinary e hmem) hk).2 hform⟩
    obtain ⟨e', hfound⟩ := Option.isSome_iff_exists.1 hsome
    have hmem' := List.mem_of_find?_eq_some hfound
    have heq := List.find?_some (p := fun e : Value × Value => e.1.eq k) hfound
    have hform' := (Value.eq_iff_form (h.ordinary e' hmem') hk).1 heq
    rw [hfound, h.eq_of_form hmem' hmem (hform'.trans hform.symm)]

/-- A value is found under the key with the same form. -/
theorem valueUnder?_eq_some (h : OrdinaryKeys entries) (hk : k.Ordinary) {v : Value} :
    valueUnder? entries k = some v ↔ ∃ e ∈ entries, e.1.form = k.form ∧ e.2 = v := by
  unfold valueUnder?
  simp only [Option.map_eq_some_iff, h.find?_eq_some hk, and_assoc]

theorem valueUnder?_of_mem (h : OrdinaryKeys entries) (he : e ∈ entries) :
    valueUnder? entries e.1 = some e.2 :=
  (h.valueUnder?_eq_some (h.ordinary e he)).2 ⟨e, he, rfl, rfl⟩

/-- No value is found without such a key. -/
theorem valueUnder?_eq_none (hentries : ∀ e ∈ entries, e.1.Ordinary) (hk : k.Ordinary) :
    valueUnder? entries k = none ↔ ∀ e ∈ entries, e.1.form ≠ k.form := by
  unfold valueUnder?
  rw [Option.map_eq_none_iff, List.find?_eq_none]
  exact forall₂_congr fun e he => not_congr (Value.eq_iff_form (hentries e he) hk)

end OrdinaryKeys

end ExprLang
