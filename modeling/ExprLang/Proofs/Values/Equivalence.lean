import ExprLang.Proofs.Values.Forms

/-!
# Equality as an equivalence

On values without floats, functions and iterators, whose dicts have proper keys (`Value.FloatFree`),
equality is an equivalence (`eq_equivalence`). Dicts are equal exactly if they have the same entries
up to their order (`dict_eq_iff`), though the comparison only looks for each entry of the first in
the second: as no two keys are equal and there are as many entries, none of the second is left over.
Equal values that have a hash have the same, whatever hashes texts have.

The proofs go by induction on the first value. Where the value has no dict inside, its form decides
(`Value.eq_iff_form`), and that is so for all keys.
-/

namespace ExprLang

/-! ## Lists related item by item -/

section

variable {α β γ : Type} {R : α → β → Prop} {as : List α} {bs : List β}

theorem exists_of_forall₂ (h : List.Forall₂ R as bs) : ∀ a ∈ as, ∃ b ∈ bs, R a b := by
  induction h with
  | nil => exact nofun
  | cons hab _ ih =>
    rintro a (_ | ⟨_, ha⟩)
    · exact ⟨_, .head _, hab⟩
    · obtain ⟨b, hb, hab⟩ := ih a ha
      exact ⟨b, .tail _ hb, hab⟩

/-- Another relation that follows between the items. -/
theorem forall₂_imp_of_mem {S : α → β → Prop} (h : List.Forall₂ R as bs)
    (himp : ∀ a ∈ as, ∀ b ∈ bs, R a b → S a b) : List.Forall₂ S as bs := by
  induction h with
  | nil => exact .nil
  | cons hab _ ih =>
    exact .cons (himp _ (.head _) _ (.head _) hab)
      (ih fun a ha b hb => himp a (.tail _ ha) b (.tail _ hb))

theorem forall₂_turn {S : β → α → Prop} (h : List.Forall₂ R as bs)
    (hturn : ∀ a ∈ as, ∀ b ∈ bs, R a b → S b a) : List.Forall₂ S bs as :=
  (forall₂_imp_of_mem (S := fun a b => S b a) h hturn).flip

theorem forall₂_join {S : β → γ → Prop} {T : α → γ → Prop} {cs : List γ}
    (h : List.Forall₂ R as bs) (h' : List.Forall₂ S bs cs)
    (hjoin : ∀ a ∈ as, ∀ b ∈ bs, ∀ c ∈ cs, R a b → S b c → T a c) : List.Forall₂ T as cs := by
  induction h generalizing cs with
  | nil =>
    cases h'
    exact .nil
  | cons hab _ ih =>
    cases h' with
    | cons hbc hrest =>
      exact .cons (hjoin _ (.head _) _ (.head _) _ (.head _) hab hbc)
        (ih hrest fun a ha b hb c hc => hjoin a (.tail _ ha) b (.tail _ hb) c (.tail _ hc))

end

/-! ## Values without floats -/

/-- Whether a value is built from `None`, truth values, integers, strings, builtin functions,
tuples, lists and dicts with proper keys. -/
inductive Value.FloatFree : Value → Prop
  | none : FloatFree .none
  | bool (b : Bool) : FloatFree (.bool b)
  | int (n : Int64) : FloatFree (.int n)
  | str (s : String) : FloatFree (.str s)
  | builtin (b : Builtin) : FloatFree (.builtin b)
  | tuple {id : Identity} {items : List Value} (h : ∀ v ∈ items, FloatFree v) :
      FloatFree (.tuple id items)
  | list {id : Identity} {items : List Value} (h : ∀ v ∈ items, FloatFree v) :
      FloatFree (.list id items)
  | dict {id : Identity} {entries : List (Value × Value)}
      (hkeys : ProperKeys (entries.map (·.1))) (hkey : ∀ e ∈ entries, FloatFree e.1)
      (hvalue : ∀ e ∈ entries, FloatFree e.2) : FloatFree (.dict id entries)

/-- What has a hash has no list or dict inside. -/
theorem Value.FloatFree.ordinary {v : Value} (h : v.FloatFree) (hhash : v.Hashable) :
    v.Ordinary := by
  induction h with
  | none => exact .none
  | bool b => exact .bool b
  | int n => exact .int n
  | str s => exact .str s
  | builtin b => exact .builtin b
  | tuple _ ih => exact .tuple fun v hv => ih v hv (hhash.items v hv)
  | list | dict =>
    obtain ⟨_, hhash⟩ := hhash
    cases hhash

/-- Proper keys without floats are ordinary. -/
theorem OrdinaryKeys.of_floatFree {entries : List (Value × Value)}
    (hkeys : ProperKeys (entries.map (·.1))) (hkey : ∀ e ∈ entries, e.1.FloatFree) :
    OrdinaryKeys entries :=
  .of_proper hkeys fun e he =>
    (hkey e he).ordinary (hkeys.hashable e.1 (List.mem_map_of_mem he))

/-- What equals an ordinary value is ordinary. -/
theorem Value.Ordinary.of_eq {a b : Value} (ha : a.Ordinary) (hb : b.FloatFree)
    (h : a.eq b = true) : b.Ordinary := by
  have hitems {as bs : List Value} (has : ∀ a ∈ as, ∀ b, b.FloatFree → a.eq b = true → b.Ordinary)
      (hbs : ∀ b ∈ bs, b.FloatFree) (hitems : Value.eqItems as bs = true) :
      ∀ b ∈ bs, b.Ordinary := fun b hb => by
    have hback := forall₂_turn (S := fun b a => a.eq b = true) (eqItems_iff.1 hitems)
      fun _ _ _ _ hab => hab
    obtain ⟨a, ha, hab⟩ := exists_of_forall₂ hback b hb
    exact has a ha b (hbs b hb) hab
  induction ha generalizing b with
  | tuple _ ih =>
    cases hb with
    | tuple hbs => exact .tuple (hitems (fun a ha _ => ih a ha) hbs h)
    | _ => cases h
  | list _ ih =>
    cases hb with
    | list hbs => exact .list (hitems (fun a ha _ => ih a ha) hbs h)
    | _ => cases h
  | _ =>
    cases hb with
    | none => exact .none
    | bool b => exact .bool b
    | int n => exact .int n
    | str s => exact .str s
    | builtin b => exact .builtin b
    | _ => cases h

/-- Equality turns round if the first value is ordinary. -/
theorem Value.Ordinary.eq_symm {a b : Value} (ha : a.Ordinary) (hb : b.FloatFree)
    (h : a.eq b = true) : b.eq a = true := by
  rwa [Value.eq_comm_of_ordinary (ha.of_eq hb h) ha]

/-- Equality goes on if the first of the values is ordinary. -/
theorem Value.Ordinary.eq_trans {a b c : Value} (ha : a.Ordinary) (hb : b.FloatFree)
    (hc : c.FloatFree) (hab : a.eq b = true) (hbc : b.eq c = true) : a.eq c = true :=
  have hb' := ha.of_eq hb hab
  Value.eq_trans_of_ordinary ha hb' (hb'.of_eq hc hbc) hab hbc

/-! ## Dicts -/

/-- Whether two entries have equal keys and equal values. -/
def EqualEntries (e e' : Value × Value) : Prop :=
  e.1.eq e'.1 = true ∧ e.2.eq e'.2 = true

/-- Whether two dicts hold the same entries, in whatever order. -/
def SameEntries (as bs : List (Value × Value)) : Prop :=
  ∃ cs, List.Forall₂ EqualEntries as cs ∧ cs.Perm bs

section

variable {as bs : List (Value × Value)}

/-- The first dict is found in the second if each of its entries has its like there. -/
theorem entriesIn_iff (has : ∀ e ∈ as, e.1.Ordinary) (hbs : OrdinaryKeys bs) :
    Value.entriesIn as bs = true ↔ ∀ e ∈ as, ∃ e' ∈ bs, EqualEntries e e' := by
  induction as with
  | nil => simp [Value.entriesIn]
  | cons e as ih =>
    obtain ⟨he, hrest⟩ := List.forall_mem_cons.1 has
    obtain ⟨k, v⟩ := e
    have hfind : (bs.find? fun e' => k.eq e'.1) = bs.find? fun e' => e'.1.eq k :=
      List.find?_congr fun e' he' => Value.eq_comm_of_ordinary he (hbs.ordinary e' he')
    rw [Value.entriesIn, Bool.and_eq_true, List.forall_mem_cons, hfind]
    refine and_congr ⟨fun h => ?_, ?_⟩ (ih hrest)
    · cases hfound : bs.find? fun e' => e'.1.eq k with
      | none => rw [hfound] at h; cases h
      | some e' =>
        rw [hfound] at h
        obtain ⟨hmem, hform⟩ := (hbs.find?_eq_some he).1 hfound
        exact ⟨e', hmem, (Value.eq_iff_form he (hbs.ordinary e' hmem)).2 hform.symm, h⟩
    · rintro ⟨e', hmem, hkey, hvalue⟩
      have hform := (Value.eq_iff_form he (hbs.ordinary e' hmem)).1 hkey
      rw [(hbs.find?_eq_some he).2 ⟨hmem, hform.symm⟩]
      exact hvalue

/-- Dicts are equal if they have as many entries, and each of the one is in the other. -/
theorem dict_eq_iff_found (i j : Identity) (has : ∀ e ∈ as, e.1.Ordinary) (hbs : OrdinaryKeys bs) :
    (Value.dict i as).eq (.dict j bs) = true ↔
      as.length = bs.length ∧ ∀ e ∈ as, ∃ e' ∈ bs, EqualEntries e e' := by
  rw [Value.eq, Bool.and_eq_true, beq_iff_eq, entriesIn_iff has hbs]

/-- Dicts are equal exactly if they have the same entries. -/
theorem dict_eq_iff (i j : Identity) (has : OrdinaryKeys as) (hbs : OrdinaryKeys bs) :
    (Value.dict i as).eq (.dict j bs) = true ↔ SameEntries as bs := by
  rw [dict_eq_iff_found i j has.ordinary hbs]
  constructor
  · rintro ⟨hlength, hfound⟩
    have hpartner : ∀ e ∈ as, ∃ e', e' ∈ bs ∧ e.1.form = e'.1.form ∧ EqualEntries e e' := by
      intro e he
      obtain ⟨e', he', hequal⟩ := hfound e he
      exact ⟨e', he', (Value.eq_iff_form (has.ordinary e he) (hbs.ordinary e' he')).1 hequal.1,
        hequal⟩
    choose! partner hpartner using hpartner
    have hforms : as.map (·.1.form) = (as.map partner).map (·.1.form) := by
      rw [List.map_map]
      exact List.map_congr_left fun e he => (hpartner e he).2.1
    -- No two of the entries found are one, as their keys differ like those they were found for.
    have hnodup : (as.map partner).Nodup := List.Nodup.of_map (·.1.form) (hforms ▸ has.distinct)
    have hsub : as.map partner ⊆ bs := List.forall_mem_map.2 fun e he => (hpartner e he).1
    have hperm := (List.subperm_of_subset hnodup hsub).perm_of_length_le
      (by rw [List.length_map, hlength])
    refine ⟨as.map partner, List.forall₂_map_right_iff.2 (List.forall₂_same.2 ?_), hperm⟩
    exact fun e he => (hpartner e he).2.2
  · rintro ⟨cs, hcs, hperm⟩
    refine ⟨hcs.length_eq.trans hperm.length_eq, fun e he => ?_⟩
    obtain ⟨c, hc, hequal⟩ := exists_of_forall₂ hcs e he
    exact ⟨c, hperm.subset hc, hequal⟩

end

/-! ## The equivalence -/

namespace Value.FloatFree

variable {a b c : Value}

/-- A value without floats is equal to itself. -/
theorem eq_self (ha : a.FloatFree) : a.eq a = true := by
  induction ha with
  | tuple _ ih => exact eqItems_iff.2 (List.forall₂_same.2 ih)
  | list _ ih => exact eqItems_iff.2 (List.forall₂_same.2 ih)
  | dict hkeys hkey hvalue ihkey ihvalue =>
    have hordinary := OrdinaryKeys.of_floatFree hkeys hkey
    refine (dict_eq_iff _ _ hordinary hordinary).2 ⟨_, List.forall₂_same.2 fun e he => ?_, .refl _⟩
    exact ⟨ihkey e he, ihvalue e he⟩
  | none | bool | int | str | builtin => exact Value.eq_self_of_ordinary (by constructor)

theorem eq_symm (ha : a.FloatFree) (hb : b.FloatFree) (h : a.eq b = true) : b.eq a = true := by
  induction ha generalizing b with
  | tuple _ ih =>
    cases hb with
    | tuple hbs =>
      exact eqItems_iff.2 (forall₂_turn (eqItems_iff.1 h) fun a ha b hb => ih a ha (hbs b hb))
    | _ => cases h
  | list _ ih =>
    cases hb with
    | list hbs =>
      exact eqItems_iff.2 (forall₂_turn (eqItems_iff.1 h) fun a ha b hb => ih a ha (hbs b hb))
    | _ => cases h
  | dict hkeys hkey hvalue ihkey ihvalue =>
    cases hb with
    | dict hkeys' hkey' hvalue' =>
      have has := OrdinaryKeys.of_floatFree hkeys hkey
      have hbs := OrdinaryKeys.of_floatFree hkeys' hkey'
      obtain ⟨cs, hcs, hperm⟩ := (dict_eq_iff _ _ has hbs).1 h
      have hturned := forall₂_turn (S := EqualEntries) hcs fun e he c hc hequal =>
        ⟨ihkey e he (hkey' c (hperm.subset hc)) hequal.1,
          ihvalue e he (hvalue' c (hperm.subset hc)) hequal.2⟩
      exact (dict_eq_iff _ _ hbs has).2 (List.perm_comp_forall₂ hperm.symm hturned)
    | _ => cases h
  | none | bool | int | str | builtin =>
    exact Value.Ordinary.eq_symm (by constructor) hb h

theorem eq_trans (ha : a.FloatFree) (hb : b.FloatFree) (hc : c.FloatFree) (hab : a.eq b = true)
    (hbc : b.eq c = true) : a.eq c = true := by
  induction ha generalizing b c with
  | tuple _ ih =>
    cases hb with
    | tuple hbs =>
      cases hc with
      | tuple hcs =>
        exact eqItems_iff.2 (forall₂_join (eqItems_iff.1 hab) (eqItems_iff.1 hbc)
          fun a ha b hb c hc => ih a ha (hbs b hb) (hcs c hc))
      | _ => cases hbc
    | _ => cases hab
  | list _ ih =>
    cases hb with
    | list hbs =>
      cases hc with
      | list hcs =>
        exact eqItems_iff.2 (forall₂_join (eqItems_iff.1 hab) (eqItems_iff.1 hbc)
          fun a ha b hb c hc => ih a ha (hbs b hb) (hcs c hc))
      | _ => cases hbc
    | _ => cases hab
  | dict hkeys hkey hvalue ihkey ihvalue =>
    cases hb with
    | dict hkeys' hkey' hvalue' =>
      cases hc with
      | dict hkeys'' hkey'' hvalue'' =>
        have has := OrdinaryKeys.of_floatFree hkeys hkey
        have hbs := OrdinaryKeys.of_floatFree hkeys' hkey'
        have hcs := OrdinaryKeys.of_floatFree hkeys'' hkey''
        obtain ⟨bs, hforward, hperm⟩ := (dict_eq_iff _ _ has hbs).1 hab
        obtain ⟨cs, honward, hperm'⟩ := (dict_eq_iff _ _ hbs hcs).1 hbc
        obtain ⟨ds, hds, hpermd⟩ := List.perm_comp_forall₂ hperm honward
        have hmem : ∀ d ∈ ds, d ∈ _ := (hpermd.trans hperm').subset
        refine (dict_eq_iff _ _ has hcs).2
          ⟨ds, forall₂_join hforward hds fun e he e' he' d hd h h' => ?_, hpermd.trans hperm'⟩
        exact ⟨ihkey e he (hkey' e' (hperm.subset he')) (hkey'' d (hmem d hd)) h.1 h'.1,
          ihvalue e he (hvalue' e' (hperm.subset he')) (hvalue'' d (hmem d hd)) h.2 h'.2⟩
      | _ => cases hbc
    | _ => cases hab
  | none | bool | int | str | builtin =>
    exact Value.Ordinary.eq_trans (by constructor) hb hc hab hbc

end Value.FloatFree

/-! ## Hashes -/

mutual
/-- The hash of a value, with any functions in the places of those that hash a text and the name of
a builtin function. -/
def Value.hashBy (text name : String → Int64) : Value → Except RuntimeError Hash
  | .str s => .ok fun _ => text s
  | .builtin b => .ok fun _ => name b.name
  | .tuple _ items =>
    (Value.hashItemsBy text name (fun _ => 0x345678) items).map fun h addresses =>
      h addresses ^^^ Int64.ofNat items.length
  | v => v.hash

/-- The hashes of items, worked into `acc`. -/
def Value.hashItemsBy (text name : String → Int64) (acc : Hash) :
    List Value → Except RuntimeError Hash
  | [] => .ok acc
  | v :: vs => do
    let h ← v.hashBy text name
    Value.hashItemsBy text name (fun addresses => (acc addresses ^^^ h addresses) * 1000003) vs
end

mutual
/-- The hash with the texts hashed as they are. -/
theorem Value.hash_eq_hashBy (v : Value) : v.hash = v.hashBy textHash textHash := by
  cases v with
  | tuple id items => rw [Value.hash, Value.hashBy, Value.hashItems_eq_hashItemsBy]
  | _ => rfl

theorem Value.hashItems_eq_hashItemsBy (acc : Hash) (vs : List Value) :
    Value.hashItems acc vs = Value.hashItemsBy textHash textHash acc vs := by
  cases vs with
  | nil => rfl
  | cons v vs =>
    rw [Value.hashItems, Value.hashItemsBy, Value.hash_eq_hashBy v]
    exact congrArg _ (funext fun h => Value.hashItems_eq_hashItemsBy _ vs)
end

mutual
/-- A hash depends on the form alone. -/
theorem Value.hashBy_form (text name : String → Int64) (v : Value) :
    v.form.hashBy text name = v.hashBy text name := by
  cases v with
  | tuple id items =>
    rw [Value.form, Value.hashBy, Value.hashBy, Value.hashItemsBy_forms, forms_eq_map,
      List.length_map]
  | _ => rfl

/-- Items are hashed by their forms. -/
theorem Value.hashItemsBy_forms (text name : String → Int64) (acc : Hash) (vs : List Value) :
    Value.hashItemsBy text name acc (Value.forms vs) = Value.hashItemsBy text name acc vs := by
  cases vs with
  | nil => rfl
  | cons v vs =>
    rw [Value.forms, Value.hashItemsBy, Value.hashItemsBy, Value.hashBy_form text name v]
    exact congrArg _ (funext fun h => Value.hashItemsBy_forms text name _ vs)
end

/-- Equal values are hashed alike, however texts are hashed. -/
theorem Value.hashBy_eq_of_eq {a b : Value} (ha : a.FloatFree) (hb : b.FloatFree)
    (hhash : a.Hashable) (h : a.eq b = true) (text name : String → Int64) :
    a.hashBy text name = b.hashBy text name := by
  have ha' := ha.ordinary hhash
  rw [← Value.hashBy_form, (Value.eq_iff_form ha' (ha'.of_eq hb h)).1 h, Value.hashBy_form]

/-! ## Main statement -/

/-- On values without floats equality is an equivalence, dicts are equal exactly if they hold the
same entries up to their order, and equal values with a hash have the same hash, whatever functions
hash texts and names of builtin functions. -/
theorem eq_equivalence :
    Equivalence (fun a b : {v : Value // v.FloatFree} => a.1.eq b.1 = true) ∧
    (∀ {i j : Identity} {as bs : List (Value × Value)}, (Value.dict i as).FloatFree →
      (Value.dict j bs).FloatFree →
      ((Value.dict i as).eq (.dict j bs) = true ↔ SameEntries as bs)) ∧
    ∀ {a b : Value}, a.FloatFree → b.FloatFree → a.Hashable → a.eq b = true →
      a.hash = b.hash ∧
      ∀ text name : String → Int64, a.hashBy text name = b.hashBy text name := by
  refine ⟨⟨fun a => a.2.eq_self, fun {a b} => a.2.eq_symm b.2,
    fun {a b c} => a.2.eq_trans b.2 c.2⟩, ?dicts, ?hashes⟩
  case dicts =>
    intro i j as bs has hbs
    cases has with
    | dict hkeys hkey _ =>
      cases hbs with
      | dict hkeys' hkey' _ =>
        exact dict_eq_iff i j (.of_floatFree hkeys hkey) (.of_floatFree hkeys' hkey')
  case hashes =>
    intro a b ha hb hhash h
    rw [Value.hash_eq_hashBy, Value.hash_eq_hashBy]
    exact ⟨Value.hashBy_eq_of_eq ha hb hhash h _ _, Value.hashBy_eq_of_eq ha hb hhash h⟩

/-- Keys of other types, in another order. -/
theorem eq_equivalence_reordered :
    (Value.dict 0 [(.int 1, .str "a"), (.tuple 1 [.bool true], .none)]).FloatFree ∧
    (Value.dict 2 [(.tuple 3 [.int 1], .none), (.bool true, .str "a")]).FloatFree ∧
    SameEntries [(.int 1, .str "a"), (.tuple 1 [.bool true], .none)]
      [(.tuple 3 [.int 1], .none), (.bool true, .str "a")] ∧
    (Value.tuple 1 [.bool true]).hash = (Value.tuple 3 [.int 1]).hash := by
  have htuple (id : Identity) {v : Value} (hv : v.FloatFree) : (Value.tuple id [v]).FloatFree :=
    .tuple (List.forall_mem_singleton.2 hv)
  have ha : (Value.dict 0 [(.int 1, .str "a"), (.tuple 1 [.bool true], .none)]).FloatFree := by
    refine .dict ⟨?_, ?_⟩ ?_ ?_
    · simp [Value.Hashable, Value.hash, Value.hashItems, bind, Except.bind, Except.map]
    · exact List.pairwise_pair.2 rfl
    · exact List.forall_mem_cons.2 ⟨.int 1, List.forall_mem_singleton.2 (htuple 1 (.bool true))⟩
    · exact List.forall_mem_cons.2 ⟨.str "a", List.forall_mem_singleton.2 .none⟩
  have hb : (Value.dict 2 [(.tuple 3 [.int 1], .none), (.bool true, .str "a")]).FloatFree := by
    refine .dict ⟨?_, ?_⟩ ?_ ?_
    · simp [Value.Hashable, Value.hash, Value.hashItems, bind, Except.bind, Except.map]
    · exact List.pairwise_pair.2 rfl
    · exact List.forall_mem_cons.2 ⟨htuple 3 (.int 1), List.forall_mem_singleton.2 (.bool true)⟩
    · exact List.forall_mem_cons.2 ⟨.none, List.forall_mem_singleton.2 (.str "a")⟩
  refine ⟨ha, hb, (eq_equivalence.2.1 ha hb).1 rfl, ?_⟩
  have hhash : (Value.tuple 1 [.bool true]).Hashable := ⟨_, rfl⟩
  exact (eq_equivalence.2.2 (htuple 1 (.bool true)) (htuple 3 (.int 1)) hhash rfl).1

end ExprLang
