import ExprLang.Proofs.Values.Equivalence

/-!
# Entries put in one by one

A dict display puts its entries in one by one, and so does `|` with those of the second dict. Where
keys are ordinary, equality of keys is transitive, so it does not matter with which of several equal
keys an entry is looked up (`valueUnder?_insertEntry`): of entries put in the last counts
(`valueUnder?_mergeEntries`), and their keys come in the order in which they were first put in
(`keys_mergeEntries`). If the entries are those of a map (`MapEntries`), with fit keys no two of
which are equal, then so are those of a merge, which has what the second has and elsewhere what the
first has (`MapEntries.valueUnder?_merge`).

Dicts with such keys are equal exactly if they have equal values under the same keys
(`dict_eq_iff_under`). So merges of equal dicts are equal (`merge_congr`).
-/

namespace ExprLang

/-! ## Entries put in one by one -/

/-- Whether a value is fit to be a key and is ordinary. -/
structure Value.IsKey (k : Value) : Prop where
  ordinary : k.Ordinary
  hashable : k.Hashable

/-- Whether entries are those of a map: their keys are fit, and no two of them are equal. -/
structure MapEntries (entries : List (Value × Value)) : Prop extends OrdinaryKeys entries where
  hashable : ∀ e ∈ entries, e.1.Hashable

theorem MapEntries.isKey {entries : List (Value × Value)} (h : MapEntries entries) :
    ∀ e ∈ entries, e.1.IsKey :=
  fun e he => ⟨h.ordinary e he, h.hashable e he⟩

/-- The value of the last entry with an equal key. -/
def lastUnder? (entries : List (Value × Value)) (key : Value) : Option Value :=
  valueUnder? entries.reverse key

/-- The keys of entries that equal no key before them, in their order. -/
def firstKeys (keys : List Value) : List Value :=
  keys.eraseDupsBy fun later earlier => earlier.eq later

section

variable {a b : List (Value × Value)} {k : Value}

theorem valueUnder?_cons (e : Value × Value) (entries : List (Value × Value)) (k : Value) :
    valueUnder? (e :: entries) k = if e.1.eq k then some e.2 else valueUnder? entries k := by
  unfold valueUnder?
  rw [List.find?_cons]
  split <;> simp [*]

theorem valueUnder?_append (a b : List (Value × Value)) (k : Value) :
    valueUnder? (a ++ b) k = (valueUnder? a k <|> valueUnder? b k) := by
  induction a with
  | nil => rfl
  | cons e a ih =>
    rw [List.cons_append, valueUnder?_cons, valueUnder?_cons, ih]
    split <;> rfl

/-- Equal keys find the same. -/
theorem valueUnder?_congr {k' : Value} (ha : ∀ e ∈ a, e.1.Ordinary) (hk : k.Ordinary)
    (hk' : k'.Ordinary) (h : k.eq k' = true) : valueUnder? a k = valueUnder? a k' := by
  have hform := (Value.eq_iff_form hk hk').1 h
  unfold valueUnder?
  refine congrArg _ (List.find?_congr fun e he => ?_)
  rw [Bool.eq_iff_iff, Value.eq_iff_form (ha e he) hk, Value.eq_iff_form (ha e he) hk', hform]

/-- An entry put in is found under keys equal to its own. All others stay. -/
theorem valueUnder?_insertEntry {key value : Value} (hentries : ∀ e ∈ a, e.1.Ordinary)
    (hkey : key.Ordinary) (hk : k.Ordinary) :
    valueUnder? (insertEntry key value a) k =
      if key.eq k then some value else valueUnder? a k := by
  induction a with
  | nil => exact valueUnder?_cons (key, value) [] k
  | cons e a ih =>
    obtain ⟨he, hrest⟩ := List.forall_mem_cons.1 hentries
    unfold insertEntry
    split
    · next hequal =>
      have hsame : e.1.eq k = key.eq k := by
        rw [Bool.eq_iff_iff, Value.eq_iff_form he hk, Value.eq_iff_form hkey hk,
          (Value.eq_iff_form he hkey).1 hequal]
      rw [valueUnder?_cons, valueUnder?_cons, hsame]
      split <;> rfl
    · next hunequal =>
      rw [valueUnder?_cons, valueUnder?_cons, ih hrest]
      split
      · next hek =>
        have hne : ¬key.eq k = true := fun hequal => hunequal
          (Value.eq_trans_of_ordinary he hk hkey hek
            (by rwa [Value.eq_comm_of_ordinary hk hkey]))
        rw [if_neg hne]
      · rfl

theorem mergeEntries_cons (a b : List (Value × Value)) (e : Value × Value) :
    mergeEntries a (e :: b) = mergeEntries (insertEntry e.1 e.2 a) b :=
  rfl

/-- Of entries put in, the last one counts. -/
theorem valueUnder?_mergeEntries (ha : ∀ e ∈ a, e.1.Ordinary) (hb : ∀ e ∈ b, e.1.Ordinary)
    (hk : k.Ordinary) :
    valueUnder? (mergeEntries a b) k = (lastUnder? b k <|> valueUnder? a k) := by
  induction b generalizing a with
  | nil => rfl
  | cons e b ih =>
    obtain ⟨he, hrest⟩ := List.forall_mem_cons.1 hb
    have hinsert : ∀ e' ∈ insertEntry e.1 e.2 a, e'.1.Ordinary := fun e' he' =>
      (forall_mem_insertEntry (R := fun _ => True) (fun e he => ⟨ha e he, trivial⟩) he trivial
        e' he').1
    have hlast : lastUnder? (e :: b) k =
        (lastUnder? b k <|> if e.1.eq k then some e.2 else none) := by
      unfold lastUnder?
      rw [List.reverse_cons, valueUnder?_append, valueUnder?_cons]
      rfl
    rw [mergeEntries_cons, ih hinsert hrest, valueUnder?_insertEntry ha he hk, hlast]
    cases lastUnder? b k with
    | some v => rfl
    | none =>
      show (if e.1.eq k then some e.2 else valueUnder? a k) =
        ((if e.1.eq k then some e.2 else none) <|> valueUnder? a k)
      split <;> rfl

/-- Keys come in the order in which they were first put in. -/
theorem keys_mergeEntries (a b : List (Value × Value)) :
    (mergeEntries a b).map (·.1) =
      List.eraseDupsBy.loop (fun later earlier => earlier.eq later) (b.map (·.1))
        (a.map (·.1)).reverse := by
  induction b generalizing a with
  | nil => simp [mergeEntries, List.eraseDupsBy.loop]
  | cons e b ih =>
    rw [mergeEntries_cons, ih, insertEntry_keys, List.map_cons]
    conv_rhs => unfold List.eraseDupsBy.loop
    have hany : (a.map (·.1)).reverse.any (fun earlier => earlier.eq e.1) =
        a.any (·.1.eq e.1) := by
      rw [List.any_reverse, List.any_map]
      rfl
    rw [hany]
    cases a.any (·.1.eq e.1) <;> simp

theorem keys_mergeEntries_nil (b : List (Value × Value)) :
    (mergeEntries [] b).map (·.1) = firstKeys (b.map (·.1)) :=
  keys_mergeEntries [] b

/-- Nothing is lost of entries with distinct keys. -/
theorem mergeEntries_of_distinct (h : OrdinaryKeys (a ++ b)) : mergeEntries a b = a ++ b := by
  induction b generalizing a with
  | nil => exact (List.append_nil a).symm
  | cons e b ih =>
    have hunequal : ∀ e' ∈ a, e'.1.eq e.1 = false := by
      intro e' he'
      rw [Bool.eq_false_iff, Ne, Value.eq_iff_form (h.ordinary e' (by simp [he']))
        (h.ordinary e (by simp))]
      have hpairs := List.pairwise_map.1 h.distinct
      exact (List.pairwise_append.1 hpairs).2.2 e' he' e (.head _)
    rw [List.append_cons] at h ⊢
    rw [mergeEntries_cons, insertEntry_of_unequal hunequal]
    exact ih h

theorem mergeEntries_nil (h : OrdinaryKeys a) : mergeEntries [] a = a :=
  mergeEntries_of_distinct h

theorem mergeEntries_eq_append (h : OrdinaryKeys a) (b : List (Value × Value)) :
    mergeEntries a b = mergeEntries [] (a ++ b) := by
  conv_lhs => rw [← mergeEntries_nil h]
  exact (List.foldl_append ..).symm

/-- Entries put in one by one are those of a map. -/
theorem MapEntries.of_keys (hb : ∀ e ∈ b, e.1.IsKey) : MapEntries (mergeEntries [] b) := by
  have hkeys : ∀ e ∈ mergeEntries [] b, e.1.IsKey := fun e he =>
    (forall_mem_mergeEntries (a := []) (R := fun _ => True) nofun
      (fun e he => ⟨hb e he, trivial⟩) e he).1
  have hproper := ProperKeys.nil.mergeEntries (a := []) fun e he => (hb e he).hashable
  exact ⟨.of_proper hproper fun e he => (hkeys e he).ordinary, fun e he => (hkeys e he).hashable⟩

theorem MapEntries.merge (ha : MapEntries a) (hb : MapEntries b) :
    MapEntries (mergeEntries a b) := by
  rw [mergeEntries_eq_append ha.toOrdinaryKeys]
  exact .of_keys (List.forall_mem_append.2 ⟨ha.isKey, hb.isKey⟩)

/-- The last of entries with distinct keys is the only one. -/
theorem lastUnder?_of_distinct (h : OrdinaryKeys a) (hk : k.Ordinary) :
    lastUnder? a k = valueUnder? a k := by
  have hmerged := valueUnder?_mergeEntries (a := []) nofun h.ordinary hk
  rw [mergeEntries_nil h] at hmerged
  rw [hmerged]
  cases lastUnder? a k <;> rfl

/-- A merge has what the second has, and elsewhere what the first has. -/
theorem MapEntries.valueUnder?_merge (ha : MapEntries a) (hb : MapEntries b) (hk : k.Ordinary) :
    valueUnder? (mergeEntries a b) k = (valueUnder? b k <|> valueUnder? a k) := by
  rw [valueUnder?_mergeEntries ha.ordinary hb.ordinary hk,
    lastUnder?_of_distinct hb.toOrdinaryKeys hk]

/-- The keys of a merge are those of the first, and then those new in the second. -/
theorem MapEntries.keys_merge (ha : MapEntries a) (b : List (Value × Value)) :
    (mergeEntries a b).map (·.1) = firstKeys (a.map (·.1) ++ b.map (·.1)) := by
  rw [mergeEntries_eq_append ha.toOrdinaryKeys, keys_mergeEntries_nil, List.map_append]

end

/-! ## Equal dicts -/

section

variable {as bs : List (Value × Value)}

theorem isSome_valueUnder? {entries : List (Value × Value)} {k : Value} :
    (valueUnder? entries k).isSome ↔ ∃ e ∈ entries, e.1.eq k = true := by
  unfold valueUnder?
  rw [Option.isSome_map, List.find?_isSome]

/-- Where the same keys are found there are as many entries. -/
theorem OrdinaryKeys.length_eq (has : OrdinaryKeys as) (hbs : OrdinaryKeys bs)
    (h : ∀ k : Value, k.Ordinary → ((valueUnder? as k).isSome ↔ (valueUnder? bs k).isSome)) :
    as.length = bs.length := by
  have hsub {as bs : List (Value × Value)} (has : OrdinaryKeys as) (hbs : OrdinaryKeys bs)
      (h : ∀ k : Value, k.Ordinary → (valueUnder? as k).isSome → (valueUnder? bs k).isSome) :
      as.map (·.1.form) ⊆ bs.map (·.1.form) := by
    refine List.forall_mem_map.2 fun e he => ?_
    have hk := has.ordinary e he
    obtain ⟨e', he', hequal⟩ := isSome_valueUnder?.1
      (h e.1 hk (isSome_valueUnder?.2 ⟨e, he, Value.eq_self_of_ordinary hk⟩))
    rw [← (Value.eq_iff_form (hbs.ordinary e' he') hk).1 hequal]
    exact List.mem_map_of_mem he'
  have hperm := (List.perm_ext_iff_of_nodup has.distinct hbs.distinct).2 fun f =>
    ⟨fun hf => hsub has hbs (fun k hk => (h k hk).1) hf,
      fun hf => hsub hbs has (fun k hk => (h k hk).2) hf⟩
  simpa using hperm.length_eq

/-- Where two dicts hold the same entries, they have equal values under the same keys. -/
theorem SameEntries.under (h : SameEntries as bs) (has : OrdinaryKeys as)
    (hbs : OrdinaryKeys bs) {k : Value} (hk : k.Ordinary) :
    Option.Rel (fun v w => v.eq w = true) (valueUnder? as k) (valueUnder? bs k) := by
  obtain ⟨cs, hcs, hperm⟩ := h
  cases hunder : valueUnder? as k with
  | some v =>
    obtain ⟨e, he, hform, rfl⟩ := (has.valueUnder?_eq_some hk).1 hunder
    obtain ⟨c, hc, hkey, hvalue⟩ := exists_of_forall₂ hcs e he
    have hc := hperm.subset hc
    have hform' := (Value.eq_iff_form (has.ordinary e he) (hbs.ordinary c hc)).1 hkey
    rw [(hbs.valueUnder?_eq_some hk).2 ⟨c, hc, hform'.symm.trans hform, rfl⟩]
    exact .some hvalue
  | none =>
    rw [OrdinaryKeys.valueUnder?_eq_none has.ordinary hk] at hunder
    have hback := exists_of_forall₂ (forall₂_turn (S := fun c e => EqualEntries e c) hcs
      fun _ _ _ _ h => h)
    have hnone : valueUnder? bs k = none := by
      rw [OrdinaryKeys.valueUnder?_eq_none hbs.ordinary hk]
      intro e' he' hform
      obtain ⟨e, he, hkey, -⟩ := hback e' (hperm.symm.subset he')
      exact hunder e he
        (((Value.eq_iff_form (has.ordinary e he) (hbs.ordinary e' he')).1 hkey).trans hform)
    rw [hnone]
    exact .none

/-- Dicts are equal exactly if they have equal values under the same keys. -/
theorem dict_eq_iff_under (i j : Identity) (has : OrdinaryKeys as) (hbs : OrdinaryKeys bs) :
    (Value.dict i as).eq (.dict j bs) = true ↔ ∀ k : Value, k.Ordinary →
      Option.Rel (fun v w => v.eq w = true) (valueUnder? as k) (valueUnder? bs k) := by
  refine ⟨fun h _ hk => ((dict_eq_iff i j has hbs).1 h).under has hbs hk, fun h => ?_⟩
  have hsome (k : Value) (hk : k.Ordinary) :
      (valueUnder? as k).isSome ↔ (valueUnder? bs k).isSome := by
    have hrel := h k hk
    generalize valueUnder? as k = v, valueUnder? bs k = w at hrel ⊢
    cases hrel <;> simp
  rw [dict_eq_iff_found i j has.ordinary hbs]
  refine ⟨has.length_eq hbs hsome, fun e he => ?_⟩
  have hrel := h e.1 (has.ordinary e he)
  rw [has.valueUnder?_of_mem he] at hrel
  cases hw : valueUnder? bs e.1 with
  | none => rw [hw] at hrel; cases hrel
  | some w =>
    rw [hw] at hrel
    obtain ⟨e', he', hform, rfl⟩ := (hbs.valueUnder?_eq_some (has.ordinary e he)).1 hw
    have hkey := (Value.eq_iff_form (has.ordinary e he) (hbs.ordinary e' he')).2 hform.symm
    cases hrel with
    | some hvalue => exact ⟨e', he', hkey, hvalue⟩

end

/-- Merges of equal dicts are equal. -/
theorem merge_congr {i i' j j' : Identity} {a a' b b' : List (Value × Value)} (ha : MapEntries a)
    (ha' : MapEntries a') (hb : MapEntries b) (hb' : MapEntries b')
    (haa : (Value.dict i a).eq (.dict i' a') = true)
    (hbb : (Value.dict j b).eq (.dict j' b') = true) (id id' : Identity) :
    (Value.dict id (mergeEntries a b)).eq (.dict id' (mergeEntries a' b')) = true := by
  refine (dict_eq_iff_under _ _ (ha.merge hb).toOrdinaryKeys (ha'.merge hb').toOrdinaryKeys).2 ?_
  intro k hk
  rw [ha.valueUnder?_merge hb hk, ha'.valueUnder?_merge hb' hk]
  have hfirst := (dict_eq_iff_under _ _ ha.toOrdinaryKeys ha'.toOrdinaryKeys).1 haa k hk
  have hsecond := (dict_eq_iff_under _ _ hb.toOrdinaryKeys hb'.toOrdinaryKeys).1 hbb k hk
  generalize valueUnder? b k = v, valueUnder? b' k = v' at hsecond ⊢
  cases hsecond with
  | some hvalue => exact .some hvalue
  | none => exact hfirst

end ExprLang
