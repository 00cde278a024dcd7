import ExprLang.Proofs.Values.Slicing
import ExprLang.Proofs.Values.Sorting

/-!
# Least and greatest items

`min` and `max` look at the items once and keep the first of those that no other beats
(`IsEarliest`), which is the item that comes first when the items are sorted, in reverse for `max`
(`extreme_eq_head`): in a stable sort the first item is the earliest among its equals
(`StablySorted.isEarliest`), and there is only one such place (`IsEarliest.unique`). Several
arguments are looked at like the items of one list.
-/

namespace ExprLang

variable {α : Type} {e : Extreme}

/-- Whether a key beats another in the search for an extreme. -/
def Extreme.Beats (e : Extreme) (a b : Value) : Prop :=
  a.order e.symbol b = .ok (some e.winning)

/-- Whether an extreme comes first in the reversed order. -/
def Extreme.inReverse : Extreme → Bool
  | .greatest => true
  | .least => false

/-- Whether an entry is the first in a list whose key no other beats: it beats those before it, and
none after it beats it. -/
def IsEarliest (e : Extreme) (entries : List (Value × α)) (best : Value × α) : Prop :=
  ∃ before after, entries = before ++ best :: after ∧ (∀ p ∈ before, e.Beats best.1 p.1) ∧
    ∀ p ∈ after, ¬e.Beats p.1 best.1

/-! ## One place -/

/-- No two entries are the earliest. -/
theorem IsEarliest.unique {entries : List (Value × α)} {best best' : Value × α}
    (h : IsEarliest e entries best) (h' : IsEarliest e entries best') : best = best' := by
  obtain ⟨before, after, rfl, hbefore, hafter⟩ := h
  obtain ⟨before', after', heq, hbefore', hafter'⟩ := h'
  obtain ⟨between, rfl, hbetween⟩ | ⟨between, rfl, hbetween⟩ := List.append_eq_append_iff.1 heq
  · cases between with
    | nil => exact (List.cons.inj hbetween).1
    | cons p between =>
      obtain ⟨rfl, rfl⟩ := List.cons.inj hbetween
      exact absurd (hbefore' best (by simp)) (hafter best' (by simp))
  · cases between with
    | nil => exact (List.cons.inj hbetween).1.symm
    | cons p between =>
      obtain ⟨rfl, rfl⟩ := List.cons.inj hbetween
      exact absurd (hbefore best' (by simp)) (hafter' best (by simp))

/-- An item beats another if the other may not precede it. -/
theorem Extreme.beats_iff {a b : Value} (h : a.Comparable b) :
    e.Beats a b ↔ ¬b.MayPrecede e.inReverse a := by
  obtain ⟨ord, hord⟩ := h.compares
  unfold Beats
  rw [hord, (hord.swap h.left h.right).mayPrecede_iff]
  cases e <;> cases ord <;> decide

theorem Extreme.not_beats_self {a : Value} (ha : a.Ordinary) : ¬e.Beats a a := by
  intro h
  obtain ⟨ord, hord, -, hequal⟩ := ha.turns ha e.symbol _ h
  cases hord
  rw [Value.eq_self_of_ordinary ha] at hequal
  cases e <;> cases hequal.2 rfl

/-- The first of stably sorted items is the earliest extreme. -/
theorem StablySorted.isEarliest {items rest : List (Value × α)} {first : Value × α}
    (hkeys : ComparableKeys (items.map (·.1)))
    (h : StablySorted e.inReverse items (first :: rest)) : IsEarliest e items first := by
  have hfirst := hkeys.ordinary _ (List.mem_map_of_mem (h.perm.subset (.head _)))
  obtain ⟨hprecedes, -⟩ := List.pairwise_cons.1 h.ordered
  have hpairs := (List.pairwise_cons.1 (List.pairwise_map.1 (hkeys.perm (h.perm.map _)).pairwise)).1
  -- The items with keys equal to the first one start with it, before the sort as after it.
  have hclass := h.stable first.1 hfirst
  rw [List.filter_cons, if_pos (Value.eq_self_of_ordinary hfirst), eq_comm,
    List.filter_eq_cons_iff] at hclass
  obtain ⟨before, after, rfl, hbefore, -, -⟩ := hclass
  refine ⟨before, after, rfl, fun p hp => ?_, fun p hp => ?_⟩
  · have hmem := h.perm.symm.subset (List.mem_append_left _ hp)
    obtain rfl | hrest := List.mem_cons.1 hmem
    · exact absurd (Value.eq_self_of_ordinary hfirst) (hbefore p hp)
    · rw [Extreme.beats_iff (hpairs p hrest)]
      intro hback
      exact hbefore p hp ((hpairs p hrest).symm.eq_of_mayPrecede hback (hprecedes p hrest))
  · have hmem := h.perm.symm.subset (List.mem_append_right before (.tail _ hp))
    obtain rfl | hrest := List.mem_cons.1 hmem
    · exact Extreme.not_beats_self hfirst
    · rw [Extreme.beats_iff (hpairs p hrest).symm, not_not]
      exact hprecedes p hrest

/-- The first of stably sorted items is the only earliest extreme. -/
theorem IsEarliest.eq_first {items rest : List (Value × α)} {best first : Value × α}
    (hkeys : ComparableKeys (items.map (·.1)))
    (h : StablySorted e.inReverse items (first :: rest)) (hbest : IsEarliest e items best) :
    best = first :=
  hbest.unique (h.isEarliest hkeys)

/-! ## The search -/

/-- Every entry is the earliest extreme, or may stand behind it. -/
theorem IsEarliest.mayPrecede {entries : List (Value × α)} {best : Value × α}
    (hkeys : ComparableKeys (entries.map (·.1))) (h : IsEarliest e entries best) :
    ∀ p ∈ entries, p = best ∨ best.1.Comparable p.1 ∧ best.1.MayPrecede e.inReverse p.1 := by
  obtain ⟨before, after, rfl, hbefore, hafter⟩ := h
  obtain ⟨-, hrest, hacross⟩ := List.pairwise_append.1 (List.pairwise_map.1 hkeys.pairwise)
  refine List.forall_mem_append.2 ⟨fun p hp => .inr ?_, ?_⟩
  · have hcompare := (hacross p hp best (.head _)).symm
    refine ⟨hcompare, hcompare.mayPrecede_total.resolve_right ?_⟩
    exact (Extreme.beats_iff hcompare).1 (hbefore p hp)
  · refine List.forall_mem_cons.2 ⟨.inl rfl, fun p hp => .inr ?_⟩
    have hcompare := (List.pairwise_cons.1 hrest).1 p hp
    have hstays := hafter p hp
    rw [Extreme.beats_iff hcompare.symm, not_not] at hstays
    exact ⟨hcompare, hstays⟩

/-- The next entry is the earliest extreme if it beats the one so far, and else that one stays. -/
theorem IsEarliest.next {done : List (Value × α)} {best candidate : Value × α}
    (hkeys : ComparableKeys ((done ++ [candidate]).map (·.1))) (h : IsEarliest e done best) :
    (e.Beats candidate.1 best.1 → IsEarliest e (done ++ [candidate]) candidate) ∧
      (¬e.Beats candidate.1 best.1 → IsEarliest e (done ++ [candidate]) best) := by
  constructor
  · intro hbeats
    have hlast (p) (hp : p ∈ done) : p.1.Comparable candidate.1 :=
      (List.pairwise_append.1 (List.pairwise_map.1 hkeys.pairwise)).2.2 p hp candidate
        (List.mem_singleton.2 rfl)
    have hdone := hkeys.sublist ((List.sublist_append_left done [candidate]).map (·.1))
    refine ⟨done, [], rfl, fun p hp => ?_, nofun⟩
    obtain rfl | ⟨hcompare, hprecedes⟩ := h.mayPrecede hdone p hp
    · exact hbeats
    · have hbest : best ∈ done := by
        obtain ⟨before, after, rfl, -⟩ := h
        simp
      rw [Extreme.beats_iff (hlast best hbest).symm] at hbeats
      rw [Extreme.beats_iff (hlast p hp).symm]
      exact mt (hcompare.mayPrecede_trans (hlast p hp) (hlast best hbest) hprecedes) hbeats
  · intro hstays
    obtain ⟨before, after, rfl, hbefore, hafter⟩ := h
    refine ⟨before, after ++ [candidate], by simp, hbefore, List.forall_mem_append.2 ⟨hafter, ?_⟩⟩
    exact List.forall_mem_singleton.2 hstays

section

variable {call : Caller} {r : RealmId} {key : Option Value}

/-- One round takes the better of two. -/
theorem run_better {best : Value × Value} {item k : Value} {s s' : Store}
    (hfree : ¬(s.realm r).interrupted) (hkey : MakesKey call key item s k s')
    (hcompare : k.Comparable best.1) : ∃ beats : Bool, (beats = true ↔ e.Beats k best.1) ∧
      Eval.better call r key e (some best) item s =
        .ok (some (if beats then (k, item) else best)) s' := by
  obtain ⟨ord, hord⟩ := hcompare.compares
  refine ⟨some ord == some e.winning, ?_, ?_⟩
  · unfold Extreme.Beats
    rw [hord, beq_iff_eq, Except.ok.injEq]
  · refine (run_ok (run_withKey hfree hkey)).trans ?_
    have hlift : (liftM (k.order e.symbol best.1) : Eval _) s' = .ok (some ord) s' := by
      rw [hord]
      rfl
    refine (run_ok hlift).trans ?_
    show EStateM.Result.ok _ _ = _
    split <;> rfl

/-- The search goes on from the best so far. -/
theorem KeysMade.search {items : List Value} {keyed done : List (Value × Value)}
    {best : Value × Value} {s s' : Store} (h : KeysMade call r key items s keyed s')
    (hkeys : ComparableKeys ((done ++ keyed).map (·.1))) (hbest : IsEarliest e done best) :
    ∃ best', items.foldlM (Eval.better call r key e) (some best) s = .ok (some best') s' ∧
      IsEarliest e (done ++ keyed) best' := by
  induction h generalizing done best with
  | nil => exact ⟨best, rfl, by rwa [List.append_nil]⟩
  | @cons item k items keyed s s₁ s₂ hfree hkey _ ih =>
    have hsplit : done ++ (k, item) :: keyed = done ++ [(k, item)] ++ keyed := by simp
    rw [hsplit] at hkeys ⊢
    have hhere := hkeys.sublist ((List.sublist_append_left (done ++ [(k, item)]) keyed).map (·.1))
    have hcompare : k.Comparable best.1 := by
      obtain ⟨before, after, rfl, -⟩ := hbest
      have hpairs := List.pairwise_append.1 (List.pairwise_map.1 hhere.pairwise)
      exact (hpairs.2.2 best (by simp) (k, item) (by simp)).symm
    obtain ⟨beats, hbeats, hrun⟩ := run_better (e := e) hfree hkey hcompare
    rw [List.foldlM_cons]
    have hnext : IsEarliest e (done ++ [(k, item)]) (if beats then (k, item) else best) := by
      cases beats with
      | true => exact (hbest.next hhere).1 (hbeats.1 rfl)
      | false => exact (hbest.next hhere).2 fun h => nomatch hbeats.2 h
    obtain ⟨best', hbest', hearliest⟩ := ih hkeys hnext
    exact ⟨best', (run_ok hrun).trans hbest', hearliest⟩

/-- The search among items that are not none finds the earliest extreme. -/
theorem KeysMade.search_all {items : List Value} {keyed : List (Value × Value)} {s s' : Store}
    (h : KeysMade call r key items s keyed s') (hkeys : ComparableKeys (keyed.map (·.1)))
    (hitems : items ≠ []) :
    ∃ best, items.foldlM (Eval.better call r key e) none s = .ok (some best) s' ∧
      IsEarliest e keyed best := by
  cases h with
  | nil => exact absurd rfl hitems
  | @cons item k items keyed s s₁ s₂ hfree hkey hrest =>
    have hfirst : Eval.better call r key e none item s = .ok (some (k, item)) s₁ :=
      run_ok (run_withKey hfree hkey)
    have hone : IsEarliest e [(k, item)] (k, item) := ⟨[], [], rfl, nofun, nofun⟩
    obtain ⟨best, hbest, hearliest⟩ := hrest.search hkeys hone
    rw [List.foldlM_cons]
    exact ⟨best, (run_ok hfirst).trans hbest, hearliest⟩

end

/-! ## The functions `min` and `max` -/

/-- A key is the only option. -/
theorem run_extremeOptions (function : String) (key : Option Value) (s : Store) :
    (liftM ((sortKeywords key none).foldlM (ExtremeOptions.give function) ⟨none, none⟩) :
      Eval ExtremeOptions) s = .ok ⟨key.bind Eval.givenKey, none⟩ s := by
  cases key <;> rfl

theorem run_builtin (e : Extreme) (call : Caller) (r : RealmId) (args : Arguments) :
    e.builtin.run call r args = Eval.extreme call r e args := by
  cases e <;> rfl

/-- Several arguments are looked at like the items of one list. -/
theorem run_extreme_apart (e : Extreme) (call : Caller) (r : RealmId) (key : Option Value)
    {items : List Value} (hitems : 2 ≤ items.length) (id : Identity) (s : Store) :
    e.builtin.run call r ⟨items, sortKeywords key none⟩ s =
      e.builtin.run call r ⟨[.list id items], sortKeywords key none⟩ s := by
  rw [run_builtin, run_builtin]
  unfold Eval.extreme
  refine (run_ok (run_extremeOptions _ key s)).trans (.trans ?_
    (run_ok (run_extremeOptions _ key s)).symm)
  match items with
  | first :: second :: rest => rfl

/-- The rounds come to the earliest of the best. -/
theorem run_extreme {call : Caller} {r : RealmId} {xs : Value} {items : List Value}
    {keyed : List (Value × Value)} {key : Option Value} {s s₁ s₂ : Store}
    (hitems : Eval.iterate xs s = .ok items s₁)
    (hmade : KeysMade call r (key.bind Eval.givenKey) items s₁ keyed s₂)
    (hkeys : ComparableKeys (keyed.map (·.1))) (hne : items ≠ []) :
    ∃ best, e.builtin.run call r ⟨[xs], sortKeywords key none⟩ s = .ok best.2 s₂ ∧
      IsEarliest e keyed best := by
  obtain ⟨best, hbest, hearliest⟩ := hmade.search_all (e := e) hkeys hne
  refine ⟨best, ?_, hearliest⟩
  rw [run_builtin]
  exact (run_ok (run_extremeOptions _ key s)).trans ((run_ok hitems).trans (run_ok hbest))

/-- The first item of a list. -/
theorem getItem_first (id : Identity) (first : Value) (rest : List Value) :
    (Value.list id (first :: rest)).getItem (.int 0) = .ok first :=
  have hplace : (0 : Int64).toInt = (0 : Nat) := rfl
  (Value.IsSequence.list id (first :: rest)).getItem hplace (Nat.succ_pos rest.length)

/-- Where the keys of items compare, `min` gives the very item that `sorted` puts first, and `max`
the one that it puts first in reverse, with the same keys in both: the earliest of the extreme ones.
Two or more arguments are looked at like the items of one list. -/
theorem extreme_eq_head (e : Extreme) :
    (∀ {call call' : Caller} {r r' : RealmId} {xs xs' : Value} {items : List Value}
      {keyed : List (Value × Value)} {key key' reverse : Option Value} {keywords : Keywords}
      {s s₁ s₂ t t₁ t₂ : Store}, keywords.Perm (sortKeywords key' reverse) →
      reverse.any Value.isTruthy = e.inReverse →
      Eval.iterate xs s = .ok items s₁ →
      KeysMade call r (key.bind Eval.givenKey) items s₁ keyed s₂ →
      Eval.iterate xs' t = .ok items t₁ →
      KeysMade call' r' (key'.bind Eval.givenKey) items t₁ keyed t₂ →
      ComparableKeys (keyed.map (·.1)) → items ≠ [] →
      ∃ k best rest id t₃,
        e.builtin.run call r ⟨[xs], sortKeywords key none⟩ s = .ok best s₂ ∧
        Builtin.sorted.run call' r' ⟨[xs'], keywords⟩ t = .ok (.list id (best :: rest)) t₃ ∧
        (Value.list id (best :: rest)).getItem (.int 0) = .ok best ∧
        IsEarliest e keyed (k, best)) ∧
    ∀ (call : Caller) (r : RealmId) (key : Option Value) {items : List Value},
      2 ≤ items.length → ∀ (id : Identity) (s : Store),
      e.builtin.run call r ⟨items, sortKeywords key none⟩ s =
        e.builtin.run call r ⟨[.list id items], sortKeywords key none⟩ s := by
  refine ⟨?head, fun call r key _ hitems id s => run_extreme_apart e call r key hitems id s⟩
  intro call call' r r' xs xs' items keyed key key' reverse keywords s s₁ s₂ t t₁ t₂ hkeywords
    hreverse hitems hmade hitems' hmade' hkeys hne
  obtain ⟨⟨k, best⟩, hbest, hearliest⟩ := run_extreme (e := e) hitems hmade hkeys hne
  obtain ⟨sorted, hsorted, hstable⟩ := sortByKey_sorts (reverse.any Value.isTruthy) hkeys
  have hrun := run_sorted hkeywords hitems' hmade' hsorted
  rw [hreverse] at hstable
  cases sorted with
  | nil =>
    have hnone : items = [] := by rw [← hmade.map_snd, hstable.perm.symm.eq_nil, List.map_nil]
    exact absurd hnone hne
  | cons first rest =>
    obtain rfl := hearliest.eq_first hkeys hstable
    exact ⟨k, best, rest.map (·.2), _, _, hbest, hrun, getItem_first _ best _, hearliest⟩

/-- The first of the longest texts. -/
theorem extreme_eq_head_longest :
    let s := (Session.new 1).store
    let items := [Value.str "a", .str "bb", .str "cc"]
    let keyed := [(Value.int 1, Value.str "a"), (.int 2, .str "bb"), (.int 2, .str "cc")]
    KeysMade (callValue 1 0) 0 (some (.builtin .len)) items s keyed s ∧
    ComparableKeys (keyed.map (·.1)) ∧
    (∃ k best rest id t, Builtin.max.run (callValue 1 0) 0
          ⟨[.list 0 items], [("key", .builtin .len)]⟩ s = .ok best s ∧
      Builtin.sorted.run (callValue 1 0) 0
          ⟨[.list 0 items], [("reverse", .bool true), ("key", .builtin .len)]⟩ s =
        .ok (.list id (best :: rest)) t ∧
      IsEarliest .greatest keyed (k, best)) ∧
    Builtin.max.run (callValue 1 0) 0 ⟨items, [("key", .builtin .len)]⟩ s =
      Builtin.max.run (callValue 1 0) 0 ⟨[.list 0 items], [("key", .builtin .len)]⟩ s := by
  intro s items keyed
  have hmade : KeysMade (callValue 1 0) 0 (some (.builtin .len)) items s keyed s :=
    .cons nofun rfl (.cons nofun rfl (.cons nofun rfl (.nil s)))
  have hkeys : ComparableKeys (keyed.map (·.1)) := .of_inOneOrder rfl
  have hkeywords : List.Perm [("reverse", Value.bool true), ("key", .builtin .len)]
      (sortKeywords (some (.builtin .len)) (some (.bool true))) := .swap _ _ _
  have hitems : Eval.iterate (.list 0 items) s = .ok items s := rfl
  have hbylen : KeysMade (callValue 1 0) 0 ((some (Value.builtin .len)).bind Eval.givenKey) items s
      keyed s := hmade
  obtain ⟨k, best, rest, id, t, hbest, hsorted, -, hearliest⟩ :=
    (extreme_eq_head .greatest).1 hkeywords rfl hitems hbylen hitems hbylen hkeys nofun
  refine ⟨hmade, hkeys, ⟨k, best, rest, id, t, hbest, hsorted, hearliest⟩, ?_⟩
  exact (extreme_eq_head .greatest).2 (callValue 1 0) 0 (some (.builtin .len)) (by decide) 0 s

end ExprLang
