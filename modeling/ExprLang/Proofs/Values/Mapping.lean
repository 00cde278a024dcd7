import ExprLang.Proofs.Running
import ExprLang.Proofs.Values.Merging

/-!
# Dicts as maps

A dict acts as a map (`Value.ActsAs`) if indexing, `in`, `get` and `len` answer as the map does, and
if `keys`, `values`, `items` and iteration go through its keys in the same order. What comes of
displays and merges (`Value.IsMap`) acts as the map that one would expect (`dict_refines_map`): the
last entry of a display with a key counts, and in a merge the second dict goes before the first. The
entries of such a dict are those of a map (`Value.IsMap.exists_entries`), and all operations look at
them in the same way (`actsAs_dict`). What map that is does not depend on anything but the dict
(`Value.ActsAs.unique`).
-/

namespace ExprLang

/-! ## Displays -/

/-- Keys and values in turn. -/
def inTurn {α : Type} (entries : List (α × α)) : List α :=
  entries.flatMap fun e => [e.1, e.2]

/-- The check of a key that has a hash does nothing. -/
theorem run_discard_hash {k : Value} (hk : k.Hashable) (s : Store) :
    (discard k.hash : Eval Unit) s = .ok () s := by
  obtain ⟨hash, hhash⟩ := hk
  rw [hhash]
  rfl

/-- A display puts in what its keys and values come to, in their order. -/
theorem evalEntries_eq_merge {call : RealmCaller} {r : RealmId} {scope : Scope}
    {es : List (Expr × Expr)} {entries : List (Value × Value)} {s s' : Store}
    (hitems : evalItems call r scope (inTurn es) s = .ok (inTurn entries) s')
    (hkeys : ∀ e ∈ entries, e.1.Hashable) (before : List (Value × Value)) :
    evalEntries call r scope before es s = .ok (mergeEntries before entries) s' := by
  induction es generalizing entries s before with
  | nil =>
    cases entries with
    | nil =>
      unfold evalItems at hitems
      unfold evalEntries
      cases hitems
      rfl
    | cons e entries =>
      unfold evalItems at hitems
      cases hitems
  | cons p es ih =>
    have hturn : inTurn (p :: es) = p.1 :: p.2 :: inTurn es := rfl
    rw [hturn] at hitems
    unfold evalItems at hitems
    obtain ⟨k, s₁, hk, hitems⟩ := run_eq_ok hitems
    obtain ⟨items, s₂, hitems, hcons⟩ := run_eq_ok hitems
    unfold evalItems at hitems
    obtain ⟨v, s₃, hv, hitems⟩ := run_eq_ok hitems
    obtain ⟨rest, s₄, hrest, hcons'⟩ := run_eq_ok hitems
    cases hcons'
    cases entries with
    | nil => cases hcons
    | cons e entries =>
      obtain ⟨he, hkeys⟩ := List.forall_mem_cons.1 hkeys
      obtain ⟨heq, rfl⟩ := EStateM.Result.ok.inj hcons
      obtain ⟨rfl, rfl, rfl⟩ : k = e.1 ∧ v = e.2 ∧ rest = inTurn entries := by
        simpa [inTurn] using heq
      unfold evalEntries
      rw [run_ok hk, run_ok (run_discard_hash he s₁), run_ok hv]
      exact ih hrest hkeys _

/-! ## Maps -/

/-- Whether a value acts as the map `m`, which has the given keys: it looks up, counts and lists
what the map has. -/
structure Value.ActsAs (d : Value) (m : Value → Option Value) (keys : List Value) : Prop where
  isKey : ∀ k ∈ keys, k.IsKey
  distinct : keys.Pairwise fun a b => a.eq b = false
  has : ∀ k : Value, k.IsKey → ((m k).isSome ↔ ∃ k' ∈ keys, k'.eq k = true)
  congr : ∀ k k' : Value, k.IsKey → k'.IsKey → k.eq k' = true → m k = m k'
  item : ∀ k : Value, k.IsKey → d.getItem k = (m k).elim (.error (.key k.text)) .ok
  member : ∀ (k : Value) (s : Store), k.IsKey → Eval.holds .isIn k d s = .ok (m k).isSome s
  get : ∀ (r : RealmId) (k : Value) (s : Store), k.IsKey →
    Method.get.run r d (.ofList [k]) s = .ok ((m k).getD .none) s
  getOr : ∀ (r : RealmId) (k default : Value) (s : Store), k.IsKey →
    Method.get.run r d (.ofList [k, default]) s = .ok ((m k).getD default) s
  length : ∀ (call : Caller) (r : RealmId) (s : Store),
    Builtin.len.run call r (.ofList [d]) s = .ok (.int (Int64.ofNat keys.length)) s
  iterated : ∀ s : Store, Eval.iterate d s = .ok keys s
  listKeys : ∀ (r : RealmId) (s : Store), ∃ id s',
    Method.keys.run r d (.ofList []) s = .ok (.list id keys) s'
  listValues : ∀ (r : RealmId) (s : Store), ∃ id vs s',
    Method.values.run r d (.ofList []) s = .ok (.list id vs) s' ∧ keys.map m = vs.map some
  listItems : ∀ (r : RealmId) (s : Store), ∃ id ts s',
    Method.items.run r d (.ofList []) s = .ok (.list id ts) s' ∧
      List.Forall₂ (fun k t => ∃ i v, m k = some v ∧ t = .tuple i [k, v]) keys ts

/-- The tuples of keys and values that `items` lists. -/
theorem run_mapM_newTuple (entries : List (Value × Value)) (s : Store) : ∃ ts s',
    (entries.mapM fun (key, value) => Eval.newTuple [key, value]) s = .ok ts s' ∧
      List.Forall₂ (fun e t => ∃ i, t = .tuple i [e.1, e.2]) entries ts := by
  induction entries generalizing s with
  | nil => exact ⟨[], s, rfl, .nil⟩
  | cons e entries ih =>
    obtain ⟨ts, s', hts, hall⟩ := ih { s with fresh := s.fresh + 1 }
    refine ⟨.tuple s.fresh [e.1, e.2] :: ts, s', ?_, .cons ⟨_, rfl⟩ hall⟩
    have htuple : Eval.newTuple [e.1, e.2] s =
        .ok (.tuple s.fresh [e.1, e.2]) { s with fresh := s.fresh + 1 } := rfl
    rw [List.mapM_cons]
    exact (run_ok htuple).trans (run_ok hts)

theorem actsAs_dict {entries : List (Value × Value)} (h : MapEntries entries) (id : Identity) :
    (Value.dict id entries).ActsAs (valueUnder? entries) (entries.map (·.1)) where
  isKey := List.forall_mem_map.2 h.isKey
  distinct := by
    refine List.pairwise_map.2 ((List.pairwise_map.1 h.distinct).imp_of_mem ?_)
    intro e e' he he' hform
    rwa [Bool.eq_false_iff, Ne, Value.eq_iff_form (h.ordinary e he) (h.ordinary e' he')]
  has k hk := by
    rw [isSome_valueUnder?]
    simp
  congr k k' hk hk' := valueUnder?_congr h.ordinary hk.ordinary hk'.ordinary
  item k hk := by
    obtain ⟨hash, hhash⟩ := hk.hashable
    unfold Value.getItem
    rw [hhash]
    cases hunder : valueUnder? entries k <;> simp only [hunder] <;> rfl
  member k s hk := by
    have hin : Eval.contains (.dict id entries) k s = .ok (valueUnder? entries k).isSome s :=
      run_ok (run_discard_hash hk.hashable s)
    have hpure : (pure ((valueUnder? entries k).isSome == true) : Eval Bool) s =
        .ok (valueUnder? entries k).isSome s := by
      rw [beq_true]
      rfl
    exact (run_ok hin).trans hpure
  get _ _ s hk := run_ok (run_discard_hash hk.hashable s)
  getOr _ _ _ s hk := run_ok (run_discard_hash hk.hashable s)
  length call r s := by
    rw [List.length_map]
    rfl
  iterated s := rfl
  listKeys r s := ⟨_, _, rfl⟩
  listValues r s := by
    refine ⟨_, entries.map (·.2), _, rfl, ?_⟩
    rw [List.map_map, List.map_map]
    exact List.map_congr_left fun e he => h.valueUnder?_of_mem he
  listItems r s := by
    obtain ⟨ts, s', hts, hall⟩ := run_mapM_newTuple entries s
    refine ⟨s'.fresh, ts, { s' with fresh := s'.fresh + 1 }, run_ok hts, ?_⟩
    refine List.forall₂_map_left_iff.2 (forall₂_imp_of_mem hall ?_)
    rintro e he t - ⟨i, rfl⟩
    exact ⟨i, e.2, h.valueUnder?_of_mem he, rfl⟩

namespace Value.ActsAs

variable {d : Value} {m n : Value → Option Value} {keys : List Value}

/-- What a value acts as is settled on keys only. -/
theorem of_agree (h : d.ActsAs m keys) (hagree : ∀ k : Value, k.IsKey → m k = n k) :
    d.ActsAs n keys where
  isKey := h.isKey
  distinct := h.distinct
  has k hk := hagree k hk ▸ h.has k hk
  congr k k' hk hk' heq := by rw [← hagree k hk, ← hagree k' hk', h.congr k k' hk hk' heq]
  item k hk := hagree k hk ▸ h.item k hk
  member k s hk := hagree k hk ▸ h.member k s hk
  get r k s hk := hagree k hk ▸ h.get r k s hk
  getOr r k default s hk := hagree k hk ▸ h.getOr r k default s hk
  length := h.length
  iterated := h.iterated
  listKeys := h.listKeys
  listValues r s := by
    obtain ⟨id, vs, s', hlist, hvalues⟩ := h.listValues r s
    refine ⟨id, vs, s', hlist, ?_⟩
    rw [← hvalues]
    exact List.map_congr_left fun k hk => (hagree k (h.isKey k hk)).symm
  listItems r s := by
    obtain ⟨id, ts, s', hlist, hitems⟩ := h.listItems r s
    refine ⟨id, ts, s', hlist, ?_⟩
    refine forall₂_imp_of_mem hitems ?_
    rintro k hk t - ⟨i, v, hv, ht⟩
    exact ⟨i, v, hagree k (h.isKey k hk) ▸ hv, ht⟩

/-- A dict acts as nothing but the map of its entries. -/
theorem unique {id : Identity} {entries : List (Value × Value)} (hentries : MapEntries entries)
    (h : (Value.dict id entries).ActsAs m keys) :
    keys = entries.map (·.1) ∧ ∀ k : Value, k.IsKey → m k = valueUnder? entries k := by
  have hdict := actsAs_dict hentries id
  constructor
  · have hiterated := (h.iterated .empty).symm.trans (hdict.iterated .empty)
    exact (EStateM.Result.ok.inj hiterated).1
  · intro k hk
    have hitem := (h.item k hk).symm.trans (hdict.item k hk)
    cases hm : m k <;> cases hn : valueUnder? entries k <;> simp_all

end Value.ActsAs

/-! ## Displays and merges -/

/-- Whether a value comes of displays and merges with fit keys. -/
inductive Value.IsMap : Value → Prop
  | display {call : RealmCaller} {r : RealmId} {scope : Scope} {es : List (Expr × Expr)}
      {entries : List (Value × Value)} {s s' s'' : Store} {d : Value}
      (hitems : evalItems call r scope (inTurn es) s = .ok (inTurn entries) s')
      (hkeys : ∀ e ∈ entries, e.1.IsKey) (hd : eval call r scope (.dict es) s = .ok d s'') : IsMap d
  | merge {id : Identity} {a b d : Value} (ha : IsMap a) (hb : IsMap b)
      (hd : a.binaryOp id .bitOr b = .ok d) : IsMap d

/-- A display comes to a dict of its entries. -/
theorem eval_display {call : RealmCaller} {r : RealmId} {scope : Scope} {es : List (Expr × Expr)}
    {entries : List (Value × Value)} {s s' : Store}
    (hitems : evalItems call r scope (inTurn es) s = .ok (inTurn entries) s')
    (hkeys : ∀ e ∈ entries, e.1.IsKey) :
    eval call r scope (.dict es) s =
      .ok (.dict s'.fresh (mergeEntries [] entries)) { s' with fresh := s'.fresh + 1 } := by
  unfold eval
  exact run_ok (evalEntries_eq_merge hitems (fun e he => (hkeys e he).hashable) [])

theorem binaryOp_merge (id i j : Identity) (a b : List (Value × Value)) :
    (Value.dict i a).binaryOp id .bitOr (.dict j b) = .ok (.dict id (mergeEntries a b)) := rfl

/-- Whatever comes of displays and merges is a dict with the entries of a map. -/
theorem Value.IsMap.exists_entries {d : Value} (h : d.IsMap) :
    ∃ id entries, d = .dict id entries ∧ MapEntries entries := by
  induction h with
  | display hitems hkeys hd =>
    rw [eval_display hitems hkeys] at hd
    obtain ⟨rfl, -⟩ := EStateM.Result.ok.inj hd
    exact ⟨_, _, rfl, .of_keys hkeys⟩
  | @merge id _ _ d _ _ hd iha ihb =>
    obtain ⟨i, a, rfl, ha⟩ := iha
    obtain ⟨j, b, rfl, hb⟩ := ihb
    rw [binaryOp_merge] at hd
    obtain rfl := Except.ok.inj hd
    exact ⟨_, _, rfl, ha.merge hb⟩

/-! ## Main statement -/

/-- Dicts are maps. A display acts as the map from each key to the value of the last entry with an
equal key, and its keys come in the order in which they first stand there. A merge acts as the
second map and, where that has nothing, as the first. Whatever comes of displays and merges acts as
some map: it fails to give the value under a key exactly if the key is not in it. Equal dicts give
equal merges. -/
theorem dict_refines_map :
    (∀ {call : RealmCaller} {r : RealmId} {scope : Scope} {es : List (Expr × Expr)}
      {entries : List (Value × Value)} {s s' : Store},
      evalItems call r scope (inTurn es) s = .ok (inTurn entries) s' →
      (∀ e ∈ entries, e.1.IsKey) →
      ∃ d s'', eval call r scope (.dict es) s = .ok d s'' ∧ d.IsMap ∧
        d.ActsAs (lastUnder? entries) (firstKeys (entries.map (·.1)))) ∧
    (∀ {a b : Value} {m n : Value → Option Value} {ks ls : List Value}, a.IsMap → b.IsMap →
      a.ActsAs m ks → b.ActsAs n ls → ∀ id : Identity,
      ∃ d, a.binaryOp id .bitOr b = .ok d ∧ d.IsMap ∧
        d.ActsAs (fun k => n k <|> m k) (firstKeys (ks ++ ls))) ∧
    (∀ {d : Value}, d.IsMap → (∃ m ks, d.ActsAs m ks) ∧
      ∀ (k : Value) (s : Store), k.IsKey →
        (d.getItem k = .error (.key k.text) ↔ Eval.holds .isIn k d s = .ok false s)) ∧
    ∀ {a a' b b' : Value}, a.IsMap → a'.IsMap → b.IsMap → b'.IsMap → a.eq a' = true →
      b.eq b' = true → ∀ id id' : Identity,
      ∃ d d', a.binaryOp id .bitOr b = .ok d ∧ a'.binaryOp id' .bitOr b' = .ok d' ∧
        d.eq d' = true := by
  refine ⟨?display, ?merge, ?any, ?congr⟩
  case display =>
    intro call r scope es entries s s' hitems hkeys
    have heval := eval_display hitems hkeys
    refine ⟨_, _, heval, .display hitems hkeys heval, ?_⟩
    have hacts := actsAs_dict (.of_keys hkeys) s'.fresh
    rw [keys_mergeEntries_nil] at hacts
    refine hacts.of_agree fun k hk => ?_
    rw [valueUnder?_mergeEntries (by simp) (fun e he => (hkeys e he).ordinary) hk.ordinary]
    cases lastUnder? entries k <;> rfl
  case merge =>
    intro a b m n ks ls ha hb hm hn id
    obtain ⟨i, as, rfl, has⟩ := ha.exists_entries
    obtain ⟨j, bs, rfl, hbs⟩ := hb.exists_entries
    obtain ⟨rfl, hunderA⟩ := hm.unique has
    obtain ⟨rfl, hunderB⟩ := hn.unique hbs
    refine ⟨_, binaryOp_merge id i j as bs, .merge ha hb (binaryOp_merge id i j as bs), ?_⟩
    rw [← has.keys_merge]
    refine (actsAs_dict (has.merge hbs) id).of_agree fun k hk => ?_
    rw [has.valueUnder?_merge hbs hk.ordinary, hunderA k hk, hunderB k hk]
  case any =>
    intro d hd
    obtain ⟨id, entries, rfl, hentries⟩ := hd.exists_entries
    have hacts := actsAs_dict hentries id
    refine ⟨⟨_, _, hacts⟩, fun k s hk => ?_⟩
    rw [hacts.item k hk, hacts.member k s hk]
    cases valueUnder? entries k <;> simp
  case congr =>
    intro a a' b b' ha ha' hb hb' haa hbb id id'
    obtain ⟨i, as, rfl, has⟩ := ha.exists_entries
    obtain ⟨i', as', rfl, has'⟩ := ha'.exists_entries
    obtain ⟨j, bs, rfl, hbs⟩ := hb.exists_entries
    obtain ⟨j', bs', rfl, hbs'⟩ := hb'.exists_entries
    exact ⟨_, _, binaryOp_merge .., binaryOp_merge .., merge_congr has has' hbs hbs' haa hbb id id'⟩

/-- A display in which a key comes twice, merged with itself. -/
theorem dict_refines_map_repeated :
    (∀ e ∈ [(Value.int 1, Value.str "a"), (.bool true, .str "b")], e.1.IsKey) ∧
    (Value.dict 0 [(.int 1, .str "b")]).IsMap ∧
    (Value.dict 0 [(.int 1, .str "b")]).ActsAs
      (lastUnder? [(.int 1, .str "a"), (.bool true, .str "b")]) [.int 1] ∧
    (Value.dict 1 [(.int 1, .str "b")]).IsMap ∧
    Eval.holds .isIn (.int 2) (.dict 0 [(.int 1, .str "b")]) .empty = .ok false .empty ∧
    ∃ d d', (Value.dict 0 [(.int 1, .str "b")]).binaryOp 1 .bitOr (.dict 0 [(.int 1, .str "b")]) =
        .ok d ∧
      (Value.dict 0 [(.int 1, .str "b")]).binaryOp 2 .bitOr (.dict 0 [(.int 1, .str "b")]) =
        .ok d' ∧
      d.eq d' = true := by
  have hkeys : ∀ e ∈ [(Value.int 1, Value.str "a"), (.bool true, .str "b")], e.1.IsKey :=
    List.forall_mem_cons.2 ⟨⟨.int 1, _, rfl⟩, List.forall_mem_singleton.2 ⟨.bool true, _, rfl⟩⟩
  have hitems : evalItems (callValue 1) 0 []
      (inTurn [(.literal (.int 1), .literal (.str "a")),
        (.literal (.bool true), .literal (.str "b"))]) .empty =
      .ok (inTurn [(.int 1, .str "a"), (.bool true, .str "b")]) .empty := rfl
  obtain ⟨a, s, heval, ha, hacts⟩ := dict_refines_map.1 hitems hkeys
  obtain rfl : Value.dict 0 [(.int 1, .str "b")] = a := (EStateM.Result.ok.inj heval).1
  obtain ⟨d, hd, hmap, -⟩ := dict_refines_map.2.1 ha ha hacts hacts 1
  obtain rfl : Value.dict 1 [(.int 1, .str "b")] = d := Except.ok.inj hd
  refine ⟨hkeys, ha, hacts, hmap, ?_, dict_refines_map.2.2.2 ha ha ha ha rfl rfl 1 2⟩
  exact ((dict_refines_map.2.2.1 ha).2 (.int 2) .empty ⟨.int 2, _, rfl⟩).1 rfl

end ExprLang
