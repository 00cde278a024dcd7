import ExprLang.Proofs.Values.Ordering

/-!
# Sorting

Where keys compare with each other (`Comparable`), sorting cannot fail, and what comes of it is
stably sorted (`StablySorted`): the items are the same, no key comes before one that it has to
follow, and items with equal keys are in the order in which they were. That holds in both directions
of the order and of both ways to sort, by insertion (`insertionSort_sorts`) and by merging
(`mergeSort_sorts`), so it holds of `sortByKey` (`sortByKey_sorts`).

Comparable keys need not compare with themselves: a single `None` is sorted without a look at it. So
the laws of an order are asked of two keys in different places only.
-/

namespace ExprLang

variable {α : Type} {reverse : Bool}

/-! ## Comparisons of keys -/

/-- Whether two values compare, with this order, whatever operator asks. -/
def Value.Compares (a b : Value) (ord : Ordering) : Prop :=
  ∀ symbol, a.order symbol b = .ok (some ord)

namespace Value.Compares

variable {a b c : Value} {ord : Ordering}

/-- Keys without NaNs that can be ordered at all compare. -/
theorem of_ok (ha : a.Ordinary) (hb : b.Ordinary) {symbol : String} {o : Option Ordering}
    (h : a.order symbol b = .ok o) : ∃ ord, a.Compares b ord := by
  obtain ⟨ord, -, hback, -⟩ := ha.turns hb symbol o h
  obtain ⟨ord', hord', hforth, -⟩ := hb.turns ha symbol _ (hback symbol)
  cases hord'
  rw [Ordering.swap_swap] at hforth
  exact ⟨ord, hforth⟩

/-- Compared the other way round they compare the other way. -/
theorem swap (ha : a.Ordinary) (hb : b.Ordinary) (h : a.Compares b ord) :
    b.Compares a ord.swap := by
  obtain ⟨ord', hord', hback, -⟩ := ha.turns hb "<" _ (h "<")
  cases hord'
  exact hback

theorem eq_iff (ha : a.Ordinary) (hb : b.Ordinary) (h : a.Compares b ord) :
    ord = .eq ↔ a.eq b = true := by
  obtain ⟨ord', hord', -, hequal⟩ := ha.turns hb "<" _ (h "<")
  cases hord'
  exact hequal

/-- What is at most something that is at most a third is at most the third, if they compare. -/
theorem trans_le (ha : a.Ordinary) (hb : b.Ordinary) (hc : c.Ordinary) {ord' ord'' : Ordering}
    (hab : a.Compares b ord) (hbc : b.Compares c ord') (hac : a.Compares c ord'')
    (hle : ord ≠ .gt) (hle' : ord' ≠ .gt) : ord'' ≠ .gt := by
  rintro rfl
  have hca := hac.swap ha hc "<"
  have hcb : c.order "<" b = .ok (some .lt) := by
    cases ord with
    | lt => exact hc.order_trans ha hb hca (hab "<") "<"
    | eq =>
      have hform := (Value.eq_iff_form ha hb).1 ((hab.eq_iff ha hb).1 rfl)
      exact Value.order_of_form hc hc ha hb rfl hform hca
    | gt => exact absurd rfl hle
  have hback := hbc.swap hb hc "<"
  rw [hcb] at hback
  cases ord' <;> cases hback
  exact hle' rfl

end Value.Compares

/-- Whether a key may stand before another: it is at most the other, or at least the other in
reverse. -/
def Value.MayPrecede (reverse : Bool) (a b : Value) : Prop :=
  (if reverse then Comparison.greaterEqual else .lessEqual).holds? a b = some (.ok true)

/-- An order, turned round in reverse. -/
def directed (reverse : Bool) (ord : Ordering) : Ordering :=
  if reverse then ord.swap else ord

namespace Value.Compares

variable {a b : Value} {ord : Ordering}

/-- One key may precede another if it does not come after it. -/
theorem mayPrecede_iff (h : a.Compares b ord) :
    a.MayPrecede reverse b ↔ directed reverse ord ≠ .gt := by
  have hle : Comparison.lessEqual.holds? a b = some (.ok ord.isLE) := by
    show some ((a.order "<=" b).map _) = _
    rw [h]
    rfl
  have hge : Comparison.greaterEqual.holds? a b = some (.ok ord.isGE) := by
    show some ((a.order ">=" b).map _) = _
    rw [h]
    rfl
  unfold Value.MayPrecede
  cases reverse
  · rw [if_neg Bool.false_ne_true, hle]
    cases ord <;> simp [directed]
  · rw [if_pos rfl, hge]
    cases ord <;> simp [directed]

/-- An item moves only before one that it is strictly before. -/
theorem movesBefore_eq (ha : a.Ordinary) (hb : b.Ordinary) (h : a.Compares b ord) :
    movesBefore reverse a b = .ok (directed reverse ord == .lt) := by
  unfold movesBefore
  cases reverse with
  | false => rw [if_neg Bool.false_ne_true, h "<"]; rfl
  | true => rw [if_pos rfl, h.swap ha hb "<"]; rfl

end Value.Compares

/-! ## Comparable keys -/

/-- Whether two ordinary values compare. -/
structure Value.Comparable (a b : Value) : Prop where
  left : a.Ordinary
  right : b.Ordinary
  compare : ∃ o, a.order "<" b = .ok o

namespace Value.Comparable

variable {a b c : Value}

theorem compares (h : a.Comparable b) : ∃ ord, a.Compares b ord := by
  obtain ⟨o, ho⟩ := h.compare
  exact Compares.of_ok h.left h.right ho

theorem symm (h : a.Comparable b) : b.Comparable a := by
  obtain ⟨ord, hord⟩ := h.compares
  exact ⟨h.right, h.left, _, hord.swap h.left h.right "<"⟩

/-- An item moves in front of another exactly if the other may not stay in front of it. -/
theorem movesBefore_iff (h : a.Comparable b) (reverse : Bool) :
    ∃ moves, movesBefore reverse b a = .ok moves ∧ (moves = false ↔ a.MayPrecede reverse b) := by
  obtain ⟨ord, hord⟩ := h.compares
  refine ⟨_, (hord.swap h.left h.right).movesBefore_eq h.right h.left, ?_⟩
  rw [hord.mayPrecede_iff]
  cases reverse <;> cases ord <;> decide

/-- One of two keys may precede the other. -/
theorem mayPrecede_total (h : a.Comparable b) :
    a.MayPrecede reverse b ∨ b.MayPrecede reverse a := by
  obtain ⟨ord, hord⟩ := h.compares
  rw [hord.mayPrecede_iff, (hord.swap h.left h.right).mayPrecede_iff]
  cases reverse <;> cases ord <;> decide

/-- Keys may precede one another transitively. -/
theorem mayPrecede_trans (hab : a.Comparable b) (hbc : b.Comparable c) (hac : a.Comparable c)
    (h : a.MayPrecede reverse b) (h' : b.MayPrecede reverse c) : a.MayPrecede reverse c := by
  obtain ⟨ord, hord⟩ := hab.compares
  obtain ⟨ord', hord'⟩ := hbc.compares
  obtain ⟨ord'', hord''⟩ := hac.compares
  rw [hord.mayPrecede_iff] at h
  rw [hord'.mayPrecede_iff] at h'
  rw [hord''.mayPrecede_iff]
  cases reverse with
  | false => exact hord.trans_le hab.left hab.right hac.right hord' hord'' h h'
  | true =>
    exact (hord'.swap hbc.left hbc.right).trans_le hbc.right hbc.left hab.left
      (hord.swap hab.left hab.right) (hord''.swap hac.left hac.right) h' h

/-- Equal keys may precede each other. -/
theorem mayPrecede_of_eq (h : a.Comparable b) (hequal : a.eq b = true) :
    a.MayPrecede reverse b := by
  obtain ⟨ord, hord⟩ := h.compares
  obtain rfl := (hord.eq_iff h.left h.right).2 hequal
  rw [hord.mayPrecede_iff]
  cases reverse <;> decide

/-- No other keys may precede each other. -/
theorem eq_of_mayPrecede (h : a.Comparable b) (hab : a.MayPrecede reverse b)
    (hba : b.MayPrecede reverse a) : a.eq b = true := by
  obtain ⟨ord, hord⟩ := h.compares
  rw [hord.mayPrecede_iff] at hab
  rw [(hord.swap h.left h.right).mayPrecede_iff] at hba
  refine (hord.eq_iff h.left h.right).1 ?_
  cases reverse <;> cases ord <;> simp_all [directed]

/-- Keys that are equal to one key may precede each other. -/
theorem mayPrecede_of_both {k : Value} (h : a.Comparable b) (hk : k.Ordinary)
    (ha : a.eq k = true) (hb : b.eq k = true) : a.MayPrecede reverse b := by
  rw [Value.eq_iff_form h.left hk] at ha
  rw [Value.eq_iff_form h.right hk] at hb
  exact h.mayPrecede_of_eq ((Value.eq_iff_form h.left h.right).2 (ha.trans hb.symm))

end Value.Comparable

/-- Whether keys are ordinary and compare with each other. -/
structure ComparableKeys (keys : List Value) : Prop where
  ordinary : ∀ k ∈ keys, k.Ordinary
  compare : keys.Pairwise fun a b => ∃ o, a.order "<" b = .ok o

namespace ComparableKeys

variable {k : Value} {keys before : List Value}

/-- Comparable keys are comparable by pairs. -/
theorem pairwise (h : ComparableKeys keys) : keys.Pairwise Value.Comparable :=
  h.compare.imp_of_mem fun ha hb hcompare => ⟨h.ordinary _ ha, h.ordinary _ hb, hcompare⟩

/-- In another order they are comparable still. -/
theorem perm (h : ComparableKeys keys) (hperm : before.Perm keys) : ComparableKeys before where
  ordinary k hk := h.ordinary k (hperm.subset hk)
  compare := ((hperm.pairwise_iff Value.Comparable.symm).2 h.pairwise).imp Value.Comparable.compare

theorem sublist (h : ComparableKeys keys) (hsub : before.Sublist keys) : ComparableKeys before :=
  ⟨fun k hk => h.ordinary k (hsub.subset hk), h.compare.sublist hsub⟩

end ComparableKeys

/-! ## Stably sorted items -/

/-- Whether items with keys are sorted: they are the same items, none has to stand before an earlier
one, and those with equal keys are in the same order as before. -/
structure StablySorted (reverse : Bool) (items sorted : List (Value × α)) : Prop where
  perm : sorted.Perm items
  ordered : sorted.Pairwise fun a b => a.1.MayPrecede reverse b.1
  stable : ∀ k : Value, k.Ordinary → sorted.filter (·.1.eq k) = items.filter (·.1.eq k)

/-! ## Insertion -/

section

variable {item : Value × α} {items sorted : List (Value × α)}

/-- An item put into a sorted list, the last item of which stands first. -/
theorem insertSorted_sorts (hkeys : ComparableKeys ((item :: sorted).map (·.1)))
    (hordered : sorted.Pairwise fun later earlier => earlier.1.MayPrecede reverse later.1) :
    ∃ out, insertSorted reverse item sorted = .ok out ∧ out.Perm (item :: sorted) ∧
      (out.Pairwise fun later earlier => earlier.1.MayPrecede reverse later.1) ∧
      ∀ k : Value, k.Ordinary → out.filter (·.1.eq k) = (item :: sorted).filter (·.1.eq k) := by
  induction sorted with
  | nil => exact ⟨[item], rfl, .refl _, List.pairwise_singleton _ _, fun _ _ => rfl⟩
  | cons last before ih =>
    have hpairs := List.pairwise_map.1 hkeys.pairwise
    obtain ⟨hitem, hlast⟩ := List.pairwise_cons.1 hpairs
    obtain ⟨hlast, -⟩ := List.pairwise_cons.1 hlast
    obtain ⟨hfirst, hrest⟩ := List.pairwise_cons.1 hordered
    have hcompare := (hitem last (.head _)).symm
    obtain ⟨moves, hmoves, hstays⟩ := hcompare.movesBefore_iff reverse
    unfold insertSorted
    rw [hmoves]
    cases moves with
    | false =>
      refine ⟨_, rfl, .refl _, List.pairwise_cons.2 ⟨?_, hordered⟩, fun _ _ => rfl⟩
      have hlastFirst := hstays.1 rfl
      refine List.forall_mem_cons.2 ⟨hlastFirst, fun e he => ?_⟩
      exact (hlast e he).symm.mayPrecede_trans hcompare (hitem e (.tail _ he)).symm
        (hfirst e he) hlastFirst
    | true =>
      have hbehind : ¬last.1.MayPrecede reverse item.1 := fun hback => nomatch hstays.2 hback
      have hkeys' := hkeys.sublist (((List.sublist_cons_self last before).cons_cons item).map (·.1))
      obtain ⟨out, hout, hperm, hpairwise, hstable⟩ := ih hkeys' hrest
      refine ⟨last :: out, ?_, ?_, List.pairwise_cons.2 ⟨fun e he => ?_, hpairwise⟩, ?_⟩
      · simp only [hout]
        rfl
      · exact (hperm.cons last).trans (.swap item last before)
      · obtain rfl | he := List.mem_cons.1 (hperm.subset he)
        · exact hcompare.mayPrecede_total.resolve_left hbehind
        · exact hfirst e he
      · intro k hk
        -- The two that change places cannot have equal keys.
        have hdiffer : ¬(last.1.eq k = true ∧ item.1.eq k = true) := fun ⟨hl, hi⟩ =>
          hbehind (hcompare.mayPrecede_of_both hk hl hi)
        rw [List.filter_cons, hstable k hk, List.filter_cons, List.filter_cons, List.filter_cons]
        split_ifs <;> simp_all

/-- Items put one after the other into a sorted list. -/
theorem insertAll_sorts {done : List (Value × α)}
    (hkeys : ComparableKeys ((done ++ items).map (·.1)))
    (h : StablySorted reverse done sorted.reverse) :
    ∃ out, items.foldlM (fun sorted item => insertSorted reverse item sorted) sorted = .ok out ∧
      StablySorted reverse (done ++ items) out.reverse := by
  induction items generalizing done sorted with
  | nil => exact ⟨sorted, rfl, by rwa [List.append_nil]⟩
  | cons item items ih =>
    have hperm : (item :: sorted).Perm (done ++ [item]) :=
      ((List.reverse_perm sorted).symm.trans h.perm).cons item |>.trans
        (List.perm_append_singleton item done).symm
    have hsplit : done ++ item :: items = done ++ [item] ++ items := by simp
    rw [hsplit] at hkeys ⊢
    have hhere := hkeys.sublist ((List.sublist_append_left (done ++ [item]) items).map (·.1))
    obtain ⟨out, hout, houtperm, hordered, hstable⟩ :=
      insertSorted_sorts (hhere.perm (hperm.map _)) (List.pairwise_reverse.1 h.ordered)
    rw [List.foldlM_cons, hout]
    refine ih hkeys ⟨?_, List.pairwise_reverse.2 hordered, fun k hk => ?_⟩
    · exact (List.reverse_perm out).trans (houtperm.trans hperm)
    · rw [List.filter_reverse, hstable k hk, ← List.filter_reverse, List.reverse_cons,
        List.filter_append, List.filter_append, h.stable k hk]

/-- Putting items in one by one sorts them, and keeps the order of those with equal keys. -/
theorem insertionSort_sorts (hkeys : ComparableKeys (items.map (·.1))) :
    ∃ out, insertionSort reverse items = .ok out ∧ StablySorted reverse items out := by
  have hnone : StablySorted reverse ([] : List (Value × α)) [].reverse :=
    ⟨.refl _, .nil, fun _ _ => rfl⟩
  obtain ⟨out, hout, hsorted⟩ := insertAll_sorts hkeys hnone
  refine ⟨out.reverse, ?_, hsorted⟩
  unfold insertionSort
  rw [hout]
  rfl

end

/-! ## Merging -/

section

variable {items : List (Value × α)}

/-- The comparison of the merge sort is whether a key may precede another. -/
theorem staysBefore_iff {a b : Value} (h : a.Comparable b) :
    staysBefore reverse a b = true ↔ a.MayPrecede reverse b := by
  obtain ⟨moves, hmoves, hstays⟩ := h.movesBefore_iff reverse
  unfold staysBefore
  rw [hmoves, ← hstays]
  cases moves <;> decide

/-- Keys that are all integers or all texts compare with each other and with themselves. -/
theorem comparable_of_inOneOrder {keys : List Value} (h : inOneOrder keys = true) :
    ∀ a ∈ keys, ∀ b ∈ keys, a.Comparable b := by
  intro a ha b hb
  rw [inOneOrder, Bool.or_eq_true, List.all_eq_true, List.all_eq_true] at h
  obtain hints | htexts := h
  · have hnumber : ∀ k ∈ keys, k.Ordinary ∧ ∃ n, k.number? = some (.int n) := by
      intro k hk
      have hint := hints k hk
      cases k with
      | bool b => exact ⟨.bool b, _, rfl⟩
      | int n => exact ⟨.int n, _, rfl⟩
      | _ => cases hint
    obtain ⟨ha, x, hx⟩ := hnumber a ha
    obtain ⟨hb, y, hy⟩ := hnumber b hb
    exact ⟨ha, hb, _, order_numbers hx hy "<"⟩
  · have htext : ∀ k ∈ keys, ∃ s, k = .str s := by
      intro k hk
      have hstr := htexts k hk
      cases k with
      | str s => exact ⟨s, rfl⟩
      | _ => cases hstr
    obtain ⟨s, rfl⟩ := htext a ha
    obtain ⟨t, rfl⟩ := htext b hb
    exact ⟨.str s, .str t, _, order_texts s t "<"⟩

/-- Keys that are found to be in one order are comparable. -/
theorem ComparableKeys.of_inOneOrder {keys : List Value} (h : inOneOrder keys = true) :
    ComparableKeys keys where
  ordinary k hk := (comparable_of_inOneOrder h k hk k hk).left
  compare := List.pairwise_of_forall_mem_list fun a ha b hb =>
    (comparable_of_inOneOrder h a ha b hb).compare

/-- Sorting by merging where the laws of an order hold of the members of the list only: the result
is in order, and parts of the list that are in order stay so. -/
theorem mergeSort_of_laws {β : Type} {r : β → β → Bool} {l : List β}
    (htrans : ∀ a ∈ l, ∀ b ∈ l, ∀ c ∈ l, r a b = true → r b c = true → r a c = true)
    (htotal : ∀ a ∈ l, ∀ b ∈ l, (r a b || r b a) = true) :
    ((l.mergeSort r).Pairwise fun a b => r a b = true) ∧
      ∀ part : List β, part.Sublist l → (part.Pairwise fun a b => r a b = true) →
        part.Sublist (l.mergeSort r) := by
  let r' (a b : {b // b ∈ l}) : Bool := r a.1 b.1
  have htrans' (a b c : {b // b ∈ l}) : r' a b = true → r' b c = true → r' a c = true :=
    htrans a.1 a.2 b.1 b.2 c.1 c.2
  have htotal' (a b : {b // b ∈ l}) : (r' a b || r' b a) = true := htotal a.1 a.2 b.1 b.2
  have hmap : (l.attach.mergeSort r').map Subtype.val = l.mergeSort r := by
    have hsort := List.map_mergeSort (r := r') (s := r) (f := Subtype.val) (l := l.attach)
      fun _ _ _ _ => rfl
    rwa [List.attach_map_subtype_val] at hsort
  rw [← hmap]
  refine ⟨List.pairwise_map.2 (List.pairwise_mergeSort htrans' htotal' _),
    fun part hsub hpart => ?_⟩
  rw [← List.attach_map_subtype_val l] at hsub
  obtain ⟨part', hsub', rfl⟩ := List.sublist_map_iff.1 hsub
  exact (List.sublist_mergeSort htrans' htotal' (List.pairwise_map.1 hpart) hsub').map _

/-- The merge sort does the same. -/
theorem mergeSort_sorts (hkeys : ∀ a ∈ items, ∀ b ∈ items, a.1.Comparable b.1) :
    StablySorted reverse items (items.mergeSort fun a b => staysBefore reverse a.1 b.1) := by
  have hstays (a b) (ha : a ∈ items) (hb : b ∈ items) :
      staysBefore reverse a.1 b.1 = true ↔ a.1.MayPrecede reverse b.1 :=
    staysBefore_iff (hkeys a ha b hb)
  have hperm := List.mergeSort_perm items fun a b => staysBefore reverse a.1 b.1
  obtain ⟨hordered, hparts⟩ := mergeSort_of_laws (l := items)
    (r := fun a b => staysBefore reverse a.1 b.1)
    (fun a ha b hb c hc => by
      rw [hstays a b ha hb, hstays b c hb hc, hstays a c ha hc]
      exact (hkeys a ha b hb).mayPrecede_trans (hkeys b hb c hc) (hkeys a ha c hc))
    (fun a ha b hb => by
      rw [Bool.or_eq_true, hstays a b ha hb, hstays b a hb ha]
      exact (hkeys a ha b hb).mayPrecede_total)
  refine ⟨hperm, hordered.imp_of_mem fun {a b} ha hb => ?_, fun k hk => ?_⟩
  · exact (hstays a b (hperm.subset ha) (hperm.subset hb)).1
  · -- Items with equal keys are in order as they are.
    have hequal : (items.filter (·.1.eq k)).Pairwise fun a b =>
        staysBefore reverse a.1 b.1 = true := by
      refine List.pairwise_of_forall_mem_list fun a ha b hb => ?_
      obtain ⟨ha, hak⟩ := List.mem_filter.1 ha
      obtain ⟨hb, hbk⟩ := List.mem_filter.1 hb
      exact (hstays a b ha hb).2 ((hkeys a ha b hb).mayPrecede_of_both hk hak hbk)
    have hsub := (hparts _ List.filter_sublist hequal).filter (·.1.eq k)
    simp only [List.filter_filter, Bool.and_self] at hsub
    exact (hsub.eq_of_length ((hperm.filter _).length_eq.symm)).symm

/-- Sorting by comparable keys does not fail, and sorts stably. -/
theorem sortByKey_sorts (reverse : Bool) (hkeys : ComparableKeys (items.map (·.1))) :
    ∃ out, sortByKey reverse items = .ok out ∧ StablySorted reverse items out := by
  unfold sortByKey
  split
  · next horder =>
    have hall := comparable_of_inOneOrder horder
    refine ⟨_, rfl, mergeSort_sorts fun a ha b hb => ?_⟩
    exact hall _ (List.mem_map_of_mem ha) _ (List.mem_map_of_mem hb)
  · exact insertionSort_sorts hkeys

end

/-! ## Keys of items -/

section

variable {call : Caller} {r : RealmId} {key : Option Value}

/-- Whether an item has a key: itself, or what a call of the key function gives. -/
def MakesKey (call : Caller) : Option Value → Value → Store → Value → Store → Prop
  | none, item, s, k, s' => k = item ∧ s' = s
  | some f, item, s, k, s' => call f (.ofList [item]) s = .ok k s'

/-- Whether the items of a list have keys, made one after the other without an interrupt. -/
inductive KeysMade (call : Caller) (r : RealmId) (key : Option Value) :
    List Value → Store → List (Value × Value) → Store → Prop
  | nil (s : Store) : KeysMade call r key [] s [] s
  | cons {item k : Value} {items : List Value} {keyed : List (Value × Value)} {s s₁ s₂ : Store} :
    ¬(s.realm r).interrupted → MakesKey call key item s k s₁ →
    KeysMade call r key items s₁ keyed s₂ →
    KeysMade call r key (item :: items) s ((k, item) :: keyed) s₂

/-- An item is taken with its key. -/
theorem run_withKey {item k : Value} {s s' : Store} (hfree : ¬(s.realm r).interrupted)
    (hkey : MakesKey call key item s k s') :
    Eval.withKey call r key item s = .ok (k, item) s' := by
  have hpoll : Eval.poll r s = .ok () s := by rw [Eval.poll_eq, if_neg hfree]
  refine (run_ok hpoll).trans ?_
  cases key with
  | none =>
    obtain ⟨rfl, rfl⟩ := hkey
    rfl
  | some f => exact run_ok hkey

/-- The items are kept beside their keys. -/
theorem KeysMade.map_snd {items : List Value} {keyed : List (Value × Value)} {s s' : Store}
    (h : KeysMade call r key items s keyed s') : keyed.map (·.2) = items := by
  induction h with
  | nil => rfl
  | cons _ _ _ ih => rw [List.map_cons, ih]

theorem KeysMade.mapM {items : List Value} {keyed : List (Value × Value)} {s s' : Store}
    (h : KeysMade call r key items s keyed s') :
    items.mapM (Eval.withKey call r key) s = .ok keyed s' := by
  induction h with
  | nil => rfl
  | cons hfree hkey _ ih =>
    rw [List.mapM_cons]
    exact (run_ok (run_withKey hfree hkey)).trans (run_ok ih)

end

/-! ## The function `sorted` -/

/-- The keywords of a call of `sorted`, or of `min` and `max` where nothing is said of a reverse. -/
def sortKeywords (key reverse : Option Value) : Keywords :=
  (key.map (Prod.mk "key")).toList ++ (reverse.map (Prod.mk "reverse")).toList

/-- The keywords of `sorted` may stand in any order. -/
theorem bind_sorted {key reverse : Option Value} {keywords : Keywords}
    (h : keywords.Perm (sortKeywords key reverse)) (xs : Value) :
    Builtin.sorted.signature.bind ⟨[xs], keywords⟩ = .ok [some xs, key, reverse] := by
  unfold sortKeywords at h
  cases key with
  | none =>
    cases reverse with
    | none => rw [List.perm_nil.1 h]; rfl
    | some reverse => rw [List.perm_singleton.1 h]; rfl
  | some key =>
    cases reverse with
    | none => rw [List.perm_singleton.1 h]; rfl
    | some reverse => obtain h | h := List.perm_pair.1 h <;> rw [h] <;> rfl

theorem givenKey_getD (key : Option Value) :
    Eval.givenKey (key.getD .none) = key.bind Eval.givenKey := by
  cases key <;> rfl

/-- What the keys of the items are sorted to is the result of `sorted`. -/
theorem run_sorted {call : Caller} {r : RealmId} {xs : Value} {items : List Value}
    {keyed sorted : List (Value × Value)} {key reverse : Option Value} {keywords : Keywords}
    {s s₁ s₂ : Store} (hkeywords : keywords.Perm (sortKeywords key reverse))
    (hitems : Eval.iterate xs s = .ok items s₁)
    (hmade : KeysMade call r (key.bind Eval.givenKey) items s₁ keyed s₂)
    (hsorted : sortByKey (reverse.any Value.isTruthy) keyed = .ok sorted) :
    Builtin.sorted.run call r ⟨[xs], keywords⟩ s =
      .ok (.list s₂.fresh (sorted.map (·.2))) { s₂ with fresh := s₂.fresh + 1 } := by
  have hbind : (liftM (Builtin.sorted.signature.bind ⟨[xs], keywords⟩) : Eval Bound) s =
      .ok [some xs, key, reverse] s := by
    rw [bind_sorted hkeywords]
    rfl
  have hkeyed : items.mapM (Eval.withKey call r (Eval.givenKey (key.getD .none))) s₁ =
      .ok keyed s₂ := by
    rw [givenKey_getD]
    exact hmade.mapM
  have hlift : (liftM (sortByKey (reverse.any Value.isTruthy) keyed) : Eval _) s₂ =
      .ok sorted s₂ := by
    rw [hsorted]
    rfl
  exact (run_ok hbind).trans ((run_ok hitems).trans ((run_ok hkeyed).trans (run_ok hlift)))

/-- The function `sorted` makes the keys of the items, each once and in their order, and sorts the
items stably by them. -/
theorem sorted_stable {call : Caller} {r : RealmId} {xs : Value} {items : List Value}
    {keyed : List (Value × Value)} {key reverse : Option Value} {keywords : Keywords}
    {s s₁ s₂ : Store} (hkeywords : keywords.Perm (sortKeywords key reverse))
    (hitems : Eval.iterate xs s = .ok items s₁)
    (hmade : KeysMade call r (key.bind Eval.givenKey) items s₁ keyed s₂)
    (hkeys : ComparableKeys (keyed.map (·.1))) :
    ∃ sorted, Builtin.sorted.run call r ⟨[xs], keywords⟩ s =
        .ok (.list s₂.fresh (sorted.map (·.2))) { s₂ with fresh := s₂.fresh + 1 } ∧
      (sorted.map (·.2)).Perm items ∧
      StablySorted (reverse.any Value.isTruthy) keyed sorted := by
  obtain ⟨sorted, hsorted, hstable⟩ := sortByKey_sorts (reverse.any Value.isTruthy) hkeys
  exact ⟨sorted, run_sorted hkeywords hitems hmade hsorted, hmade.map_snd ▸ hstable.perm.map _,
    hstable⟩

/-- Texts sorted by their lengths, the longest first. -/
theorem sorted_stable_lengths :
    let s := (Session.new 1).store
    let items := [Value.str "bb", .str "a", .str "cc"]
    let keyed := [(Value.int 2, Value.str "bb"), (.int 1, .str "a"), (.int 2, .str "cc")]
    let sorted := [(Value.int 2, Value.str "bb"), (.int 2, .str "cc"), (.int 1, .str "a")]
    KeysMade (callValue 1 0) 0 (some (.builtin .len)) items s keyed s ∧
    ComparableKeys (keyed.map (·.1)) ∧
    Builtin.sorted.run (callValue 1 0) 0
        ⟨[.list 0 items], [("reverse", .bool true), ("key", .builtin .len)]⟩ s =
      .ok (.list 0 [.str "bb", .str "cc", .str "a"]) { s with fresh := 1 } ∧
    StablySorted true keyed sorted := by
  intro s items keyed sorted
  have hmade : KeysMade (callValue 1 0) 0 (some (.builtin .len)) items s keyed s :=
    .cons nofun rfl (.cons nofun rfl (.cons nofun rfl (.nil s)))
  have hkeys : ComparableKeys (keyed.map (·.1)) := .of_inOneOrder rfl
  have hkeywords : List.Perm [("reverse", Value.bool true), ("key", .builtin .len)]
      (sortKeywords (some (.builtin .len)) (some (.bool true))) := .swap _ _ _
  have hsorted : sortByKey true keyed = .ok sorted := by cbv
  have hitems : Eval.iterate (.list 0 items) s = .ok items s := rfl
  have hrun := run_sorted hkeywords hitems hmade hsorted
  obtain ⟨found, hfound, -, hstable⟩ := sorted_stable hkeywords hitems hmade hkeys
  -- Each text tells its key, so the items that were found are those of the run.
  have hvalues : found.map (·.2) = sorted.map (·.2) := by
    have hlist := (EStateM.Result.ok.inj (hfound.symm.trans hrun)).1
    exact (Value.list.inj hlist).2
  let withKey (v : Value) : Value × Value := (if v.eq (.str "a") then .int 1 else .int 2, v)
  have hkeyed : ∀ p ∈ keyed, withKey p.2 = p := List.forall_mem_cons.2
    ⟨rfl, List.forall_mem_cons.2 ⟨rfl, List.forall_mem_singleton.2 rfl⟩⟩
  have hnamed : found = sorted := by
    calc found
      _ = found.map fun p => withKey p.2 := by
        refine (List.map_id _).symm.trans (List.map_congr_left fun p hp => ?_)
        exact (hkeyed p (hstable.perm.subset hp)).symm
      _ = (found.map (·.2)).map withKey := by rw [List.map_map]; rfl
      _ = (sorted.map (·.2)).map withKey := by rw [hvalues]
      _ = sorted := by rfl
  exact ⟨hmade, hkeys, hrun, hnamed ▸ hstable⟩

end ExprLang
