import ExprLang.Proofs.Evaluating.Sessions
import Mathlib

/-!
# Keys of dicts

A dict holds its entries in a list, which could hold anything. In every value that a session comes
by, though, each dict has keys that all have a hash, and no two of them are equal (`WellKeyed`).
Evaluation keeps this (`eval_kept`), for what it makes new dicts from has been looked at before: a
display and `|` put entries in one by one, and the keywords that a `**` parameter collects differ.

Keys that are put in are compared with those before them only. As equality of values that have a
hash is symmetric (`Value.eq_comm_of_hashable`), it does not matter in which order they are
compared.
-/

namespace ExprLang

/-! ## Equality of keys -/

/-- The equality of floats is symmetric, for NaNs too. -/
theorem Double.beq_comm (x y : Double) : (x == y) = (y == x) := by
  show (x.toFloat == y.toFloat) = (y.toFloat == x.toFloat)
  rw [Bool.eq_iff_iff, Float.beq_iff_ne_nan_and_eq, Float.beq_iff_ne_nan_and_eq]
  grind

theorem Complex.beq_comm (z w : Complex) : z.beq w = w.beq z := by
  unfold Complex.beq
  rw [Double.beq_comm z.re, Double.beq_comm z.im]

theorem Number.beq_comm (a b : Number) : a.beq b = b.beq a := by
  cases a <;> cases b <;>
    simp [Number.beq, Number.toComplex, Complex.beq_comm, Double.beq_comm, BEq.comm]

theorem Value.same_comm (a b : Value) : a.same b = b.same a := by
  cases a <;> cases b <;> simp [Value.same, Double.same, BEq.comm, eq_comm]

/-- Items that are hashed together can be hashed each. -/
theorem hashable_of_hashItems {acc h : Hash} {items : List Value}
    (hitems : Value.hashItems acc items = .ok h) : ∀ v ∈ items, v.Hashable := by
  induction items generalizing acc with
  | nil => simp
  | cons v vs ih =>
    unfold Value.hashItems at hitems
    cases hv : v.hash with
    | error e => simp [hv, bind, Except.bind] at hitems
    | ok hash =>
      rw [hv] at hitems
      exact List.forall_mem_cons.2 ⟨⟨hash, hv⟩, ih hitems⟩

/-- The items of a hashable tuple are hashable. -/
theorem Value.Hashable.items {id : Identity} {items : List Value}
    (h : (Value.tuple id items).Hashable) : ∀ v ∈ items, v.Hashable := by
  obtain ⟨hash, hhash⟩ := h
  unfold Value.hash at hhash
  cases hitems : Value.hashItems (fun _ => 0x345678) items with
  | ok acc => exact hashable_of_hashItems hitems
  | error e =>
    rw [hitems] at hhash
    cases hhash

/-- Equality of two values that are not both tuples, both lists or both dicts. -/
def Value.plainEq (a b : Value) : Bool :=
  match a.number?, b.number? with
  | some x, some y => x.beq y
  | _, _ => a.same b

/-- Equality is symmetric where it is that of plain values. -/
theorem Value.eq_comm_of_plain {a b : Value} (hab : a.eq b = a.plainEq b)
    (hba : b.eq a = b.plainEq a) : a.eq b = b.eq a := by
  rw [hab, hba]
  unfold plainEq
  cases a.number? <;> cases b.number? <;> simp [Number.beq_comm, Value.same_comm]

mutual
/-- Keys are equal or not, whichever comes first. -/
theorem Value.eq_comm_of_hashable {a b : Value} (ha : a.Hashable) (hb : b.Hashable) :
    a.eq b = b.eq a := by
  cases a with
  | tuple _ as =>
    cases b with
    | tuple _ bs => exact Value.eqItems_comm ha.items hb.items
    | _ => exact Value.eq_comm_of_plain rfl rfl
  | list | dict => nomatch ha
  | _ => cases b <;> exact Value.eq_comm_of_plain rfl rfl

/-- Equality of items is symmetric if they are hashable. -/
theorem Value.eqItems_comm {as bs : List Value} (has : ∀ a ∈ as, a.Hashable)
    (hbs : ∀ b ∈ bs, b.Hashable) : Value.eqItems as bs = Value.eqItems bs as := by
  match as, bs with
  | [], [] | [], _ :: _ | _ :: _, [] => rfl
  | a :: as, b :: bs =>
    rw [List.forall_mem_cons] at has hbs
    simp only [Value.eqItems]
    rw [Value.eq_comm_of_hashable has.1 hbs.1, Value.eqItems_comm has.2 hbs.2]
end

/-! ## Fit keys -/

/-- Whether values are fit for the keys of a dict: all have a hash, and no two are equal. -/
structure DistinctKeys (keys : List Value) : Prop where
  hashable : ∀ k ∈ keys, k.Hashable
  unequal : keys.Pairwise fun a b => a.eq b = false ∧ b.eq a = false

/-- Distinct keys are proper and proper keys are distinct. -/
theorem distinctKeys_iff {keys : List Value} : DistinctKeys keys ↔ ProperKeys keys := by
  refine ⟨fun h => ⟨h.hashable, h.unequal.imp And.left⟩, fun h => ⟨h.hashable, ?_⟩⟩
  refine h.distinct.imp_of_mem fun {a b} ha hb hne => ⟨hne, ?_⟩
  rwa [← Value.eq_comm_of_hashable (h.hashable a ha) (h.hashable b hb)]

/-! ## Containers equal to themselves -/

theorem eqItems_self {vs : List Value} (h : ∀ v ∈ vs, v.eq v = true) :
    Value.eqItems vs vs = true := by
  induction vs with
  | nil => rfl
  | cons v vs ih =>
    rw [List.forall_mem_cons] at h
    simp only [Value.eqItems, h.1, ih h.2, Bool.and_self]

/-- Each entry finds itself, as no entry before it has an equal key. -/
theorem find?_self {before after : List (Value × Value)} {e : Value × Value}
    (hself : e.1.eq e.1 = true)
    (hdistinct : DistinctKeys ((before ++ e :: after).map (·.1))) :
    (before ++ e :: after).find? (fun e' => e.1.eq e'.1) = some e := by
  rw [List.find?_append, List.find?_cons_of_pos (by simpa using hself), Option.or_of_isNone]
  rw [Option.isNone_iff_eq_none, List.find?_eq_none]
  intro e' he'
  have hpairs := hdistinct.unequal
  rw [List.map_append, List.pairwise_append] at hpairs
  have hne := hpairs.2.2 e'.1 (List.mem_map_of_mem he') e.1 (by simp)
  simp [hne.2]

/-- The entries from some place on are among all of them. -/
theorem entriesIn_self {before es : List (Value × Value)} (hkeys : ∀ e ∈ es, e.1.eq e.1 = true)
    (hvalues : ∀ e ∈ es, e.2.eq e.2 = true)
    (hdistinct : DistinctKeys ((before ++ es).map (·.1))) :
    Value.entriesIn es (before ++ es) = true := by
  induction es generalizing before with
  | nil => rfl
  | cons e es ih =>
    obtain ⟨k, v⟩ := e
    rw [List.forall_mem_cons] at hkeys hvalues
    have happ : before ++ (k, v) :: es = (before ++ [(k, v)]) ++ es := by simp
    have hrest : Value.entriesIn es (before ++ (k, v) :: es) = true := by
      rw [happ] at hdistinct ⊢
      exact ih hkeys.2 hvalues.2 hdistinct
    have hfind := find?_self hkeys.1 hdistinct
    simp only [Value.entriesIn, hfind, hvalues.1, hrest, Bool.and_self]

/-! ## Values all of whose dicts have fit keys -/

/-- Whether all dicts inside of a value have fit keys. -/
def Value.WellKeyed (v : Value) : Prop :=
  ∀ id entries, Inside (.dict id entries) v → DistinctKeys (entries.map (·.1))

/-- A value is well keyed if its parts and its own keys are. -/
theorem wellKeyed_of_parts {v : Value} (hparts : ∀ w ∈ v.parts, w.WellKeyed)
    (hkeys : ProperKeys v.keys) : v.WellKeyed := by
  intro id entries hinside
  cases hinside with
  | refl => exact distinctKeys_iff.2 hkeys
  | part hinside hw => exact hparts _ hw id entries hinside

/-- The parts of a well keyed value are well keyed. -/
theorem Value.WellKeyed.part {v w : Value} (hv : v.WellKeyed) (hw : w ∈ v.parts) : w.WellKeyed :=
  fun id entries hinside => hv id entries (.part hinside hw)

/-- To be well keyed is decided by the parts. -/
theorem hereditary_wellKeyed : Hereditary Value.WellKeyed where
  part := Value.WellKeyed.part
  whole := wellKeyed_of_parts
  merge {i j k a b} ha hb := by
    have hentries := forall_mem_mergeEntries (Value.forall_mem_dict_parts.1 fun _ => ha.part)
      (Value.forall_mem_dict_parts.1 fun _ => hb.part)
    have hkeys : ProperKeys ((mergeEntries a b).map (·.1)) :=
      (distinctKeys_iff.1 (ha _ _ (.refl _))).mergeEntries fun e he =>
        (hb _ _ (.refl _)).hashable e.1 (List.mem_map_of_mem he)
    exact wellKeyed_of_parts (Value.forall_mem_dict_parts.2 hentries) hkeys

/-! ## Sessions -/

/-- Whatever was done to a session, all dicts in its definitions, in the items left to its iterators
and in what a further line comes to have keys with hashes, no two of them equal. -/
theorem Session.wellKeyed (maxDepth : Nat) (addresses : Addresses) (actions : List Session.Action)
    (line : String) :
    let session := actions.foldl Session.after (.new maxDepth addresses)
    (∀ r, ∀ b ∈ (session.store.realm r).globals, b.2.WellKeyed) ∧
    (∀ id, ∀ v ∈ session.store.itemsLeft id, v.WellKeyed) ∧
    ∀ v, (session.evalLine line).1 = .ok (.value v) → v.WellKeyed := by
  intro session
  have hfit : session.store.Fit Value.WellKeyed :=
    fit_foldl hereditary_wellKeyed actions (fit_new _ maxDepth addresses)
  exact ⟨hfit.realm, hfit.items, (evalLine_kept hereditary_wellKeyed line hfit).2⟩

end ExprLang
