import ExprLang.Builtin
import ExprLang.Value.Sequence

/-!
# Parts of values

`Value.parts` are the values right inside another: the items of a tuple or a list, the keys and
values of a dict, the variables and defaults that a function carries with it, the receiver of a
method. A property of values is hereditary (`Hereditary`) if it passes to the parts and comes back
from them. Operations respect a property already if it comes back from the parts of data
(`Respected`), whatever more it asks of functions, which have code, of builtin functions, which
code has to name, and of iterators, whose items are in the store: what an operation makes out of
values with such a property has it too.

Only for a dict are good parts not enough: its keys have to be proper (`ProperKeys`), each with a
hash and none equal to a later one. An entry put in keeps them so (`ProperKeys.insertEntry`).
-/

namespace ExprLang

/-! ## Keys -/

/-- Whether a value has a hash. -/
def Value.Hashable (v : Value) : Prop :=
  ∃ h, v.hash = .ok h

/-- Whether values are the keys of a dict: each has a hash, and none equals a later one. -/
structure ProperKeys (keys : List Value) : Prop where
  hashable : ∀ k ∈ keys, k.Hashable
  distinct : keys.Pairwise fun a b => a.eq b = false

theorem ProperKeys.nil : ProperKeys [] :=
  ⟨by simp, .nil⟩

/-- A key that is there is kept, and one that is not comes last. -/
theorem insertEntry_keys (key value : Value) (entries : List (Value × Value)) :
    (insertEntry key value entries).map (·.1) =
      if entries.any (·.1.eq key) then entries.map (·.1) else entries.map (·.1) ++ [key] := by
  induction entries with
  | nil => rfl
  | cons e es ih =>
    unfold insertEntry
    cases he : e.1.eq key with
    | true => simp [he]
    | false =>
      simp only [Bool.false_eq_true, if_false, List.map_cons, ih, List.any_cons, he, Bool.false_or]
      split <;> rfl

/-- A key that equals none is put in at the end. -/
theorem insertEntry_of_unequal {k v : Value} {es : List (Value × Value)}
    (h : ∀ e ∈ es, e.1.eq k = false) : insertEntry k v es = es ++ [(k, v)] := by
  induction es with
  | nil => rfl
  | cons e es ih =>
    rw [List.forall_mem_cons] at h
    simp [insertEntry, h.1, ih h.2]

/-- What holds of the entries and of a new one holds after it is put in. -/
theorem forall_mem_insertEntry {Q R : Value → Prop} {key value : Value}
    {entries : List (Value × Value)} (h : ∀ e ∈ entries, Q e.1 ∧ R e.2) (hkey : Q key)
    (hvalue : R value) : ∀ e ∈ insertEntry key value entries, Q e.1 ∧ R e.2 := by
  induction entries with
  | nil => simpa [insertEntry] using ⟨hkey, hvalue⟩
  | cons e es ih =>
    rw [List.forall_mem_cons] at h
    unfold insertEntry
    split
    · exact List.forall_mem_cons.2 ⟨⟨h.1.1, hvalue⟩, h.2⟩
    · exact List.forall_mem_cons.2 ⟨h.1, ih h.2⟩

theorem ProperKeys.insertEntry {key : Value} {entries : List (Value × Value)}
    (h : ProperKeys (entries.map (·.1))) (hkey : key.Hashable) (value : Value) :
    ProperKeys ((insertEntry key value entries).map (·.1)) := by
  rw [insertEntry_keys]
  split
  · exact h
  · next hnone =>
    refine ⟨List.forall_mem_append.2 ⟨h.hashable, by simpa using hkey⟩, ?_⟩
    refine List.pairwise_append.2 ⟨h.distinct, List.pairwise_singleton _ _, ?_⟩
    simpa using hnone

/-- Keys stay proper in a merge. -/
theorem ProperKeys.mergeEntries {a b : List (Value × Value)} (ha : ProperKeys (a.map (·.1)))
    (hb : ∀ e ∈ b, e.1.Hashable) : ProperKeys ((mergeEntries a b).map (·.1)) := by
  unfold ExprLang.mergeEntries
  induction b generalizing a with
  | nil => exact ha
  | cons e b ih =>
    rw [List.forall_mem_cons] at hb
    exact ih (ha.insertEntry hb.1 e.2) hb.2

/-- The keys and values of a merge are those of the two. -/
theorem forall_mem_mergeEntries {Q R : Value → Prop} {a b : List (Value × Value)}
    (ha : ∀ e ∈ a, Q e.1 ∧ R e.2) (hb : ∀ e ∈ b, Q e.1 ∧ R e.2) :
    ∀ e ∈ mergeEntries a b, Q e.1 ∧ R e.2 := by
  unfold mergeEntries
  induction b generalizing a with
  | nil => exact ha
  | cons e b ih =>
    rw [List.forall_mem_cons] at hb
    exact ih (forall_mem_insertEntry ha hb.1.1 hb.1.2) hb.2

/-! ## Parts -/

/-- The values that a function carries with it: those of the variables around it and its
defaults. -/
def Closure.parts (c : Closure Value) : List Value :=
  c.scope.map (·.2) ++ (c.defaults.filterMap id ++ c.keywordDefaults.filterMap id)

/-- The values right inside a value. -/
def Value.parts : Value → List Value
  | .tuple _ items | .list _ items => items
  | .dict _ entries => entries.map (·.1) ++ entries.map (·.2)
  | .function _ c => c.parts
  | .method _ m => [m.receiver]
  | _ => []

/-- The keys of a value that is a dict. -/
def Value.keys : Value → List Value
  | .dict _ entries => entries.map (·.1)
  | _ => []

/-- The parts of a dict are its keys and values. -/
theorem Value.forall_mem_dict_parts {P : Value → Prop} {id : Identity}
    {entries : List (Value × Value)} :
    (∀ v ∈ (Value.dict id entries).parts, P v) ↔ ∀ e ∈ entries, P e.1 ∧ P e.2 := by
  unfold parts
  rw [List.forall_mem_append, List.forall_mem_map, List.forall_mem_map]
  exact ⟨fun h e he => ⟨h.1 e he, h.2 e he⟩,
    fun h => ⟨fun e he => (h e he).1, fun e he => (h e he).2⟩⟩

/-- Whether a value is another or somewhere inside of it. -/
inductive Value.Inside : Value → Value → Prop
  | refl (v : Value) : Inside v v
  | part {u v w : Value} : Inside u v → v ∈ w.parts → Inside u w

/-! ## Properties of values -/

/-- Whether a value is known by its parts: it is no function, builtin or not, and no iterator. -/
def Value.isData : Value → Bool
  | .iterator _ | .function .. | .builtin _ => false
  | _ => true

/-- Whether a value is data without parts. -/
def Value.isAtom : Value → Bool
  | .none | .bool _ | .int _ | .float _ | .complex _ | .str _ => true
  | _ => false

/-- Whether an expression may be evaluated among values with a property: a function with this body
has the property if its parts do. -/
def Expr.Fit (P : Value → Prop) (e : Expr) : Prop :=
  ∀ id (c : Closure Value), c.body = e → (∀ v ∈ c.parts, P v) → P (.function id c)

theorem Expr.fit_any (e : Expr) : e.Fit fun _ => True :=
  fun _ _ _ _ => trivial

/-- A property that values have from their parts and pass to them. -/
structure Hereditary (P : Value → Prop) : Prop where
  part : ∀ {v w}, P v → w ∈ v.parts → P w
  whole : ∀ {v}, (∀ w ∈ v.parts, P w) → ProperKeys v.keys → P v
  merge : ∀ {i j k a b}, P (.dict i a) → P (.dict j b) → P (.dict k (mergeEntries a b))

/-- A property that values pass to their parts, and that data has from them. A builtin function has
it if its name may be evaluated. -/
structure Respected (P : Value → Prop) : Prop where
  part : ∀ {v w}, P v → w ∈ v.parts → P w
  whole : ∀ {v}, v.isData = true → (∀ w ∈ v.parts, P w) → ProperKeys v.keys → P v
  builtin : ∀ {b : Builtin}, (Expr.var b.name).Fit P → P (.builtin b)
  merge : ∀ {i j k a b}, P (.dict i a) → P (.dict j b) → P (.dict k (mergeEntries a b))

/-- What the parts alone decide is respected. -/
theorem Hereditary.respected {P : Value → Prop} (h : Hereditary P) : Respected P :=
  ⟨h.part, fun _ => h.whole, fun _ => h.whole nofun .nil, h.merge⟩

/-- Nothing need be known of values. -/
theorem Hereditary.any : Hereditary fun _ => True :=
  ⟨fun _ _ => trivial, fun _ _ => trivial, fun _ _ => trivial⟩

theorem Hereditary.iterator {P : Value → Prop} (h : Hereditary P) (id : IteratorId) :
    P (.iterator id) :=
  h.whole nofun .nil

namespace Respected

variable {P : Value → Prop} (h : Respected P)

include h

/-- Data without parts has the property. -/
theorem atom {v : Value} (hatom : v.isAtom = true) : P v := by
  cases v with
  | none | bool | int | float | complex | str => exact h.whole rfl nofun .nil
  | _ => cases hatom

theorem ofNumber (n : Number) : P (.ofNumber n) := by
  cases n <;> exact h.atom rfl

/-- A tuple is as its items are. -/
theorem tuple {id : Identity} {items : List Value} :
    P (.tuple id items) ↔ ∀ v ∈ items, P v :=
  ⟨fun hv _ hw => h.part hv hw, fun hitems => h.whole rfl hitems .nil⟩

theorem list {id : Identity} {items : List Value} :
    P (.list id items) ↔ ∀ v ∈ items, P v :=
  ⟨fun hv _ hw => h.part hv hw, fun hitems => h.whole rfl hitems .nil⟩

theorem method {id : Identity} {m : BoundMethod Value} :
    P (.method id m) ↔ P m.receiver :=
  ⟨fun hv => h.part hv (List.mem_singleton.2 rfl),
    fun hm => h.whole rfl (by simpa [Value.parts]) .nil⟩

theorem entries {id : Identity} {entries : List (Value × Value)} (hv : P (.dict id entries)) :
    ∀ e ∈ entries, P e.1 ∧ P e.2 :=
  Value.forall_mem_dict_parts.1 fun _ hw => h.part hv hw

/-- A dict is as its keys and values are, if its keys are proper. -/
theorem dict {id : Identity} {entries : List (Value × Value)}
    (hentries : ∀ e ∈ entries, P e.1 ∧ P e.2) (hkeys : ProperKeys (entries.map (·.1))) :
    P (.dict id entries) :=
  h.whole rfl (Value.forall_mem_dict_parts.2 hentries) hkeys

/-- The items that a value holds in itself. -/
theorem items {v : Value} (hv : P v) {vs : List Value} (hvs : v.items? = some vs) :
    ∀ w ∈ vs, P w := by
  cases v with
  | str s =>
    obtain rfl := Option.some.inj hvs
    exact List.forall_mem_map.2 fun _ _ => h.atom rfl
  | tuple id items => exact Option.some.inj hvs ▸ h.tuple.1 hv
  | list id items => exact Option.some.inj hvs ▸ h.list.1 hv
  | dict id entries =>
    obtain rfl := Option.some.inj hvs
    exact List.forall_mem_map.2 fun e he => (h.entries hv e he).1
  | _ => cases hvs

/-- The value under a key. -/
theorem under {id : Identity} {entries : List (Value × Value)} (hv : P (.dict id entries))
    {key w : Value} (hw : valueUnder? entries key = some w) : P w := by
  obtain ⟨e, he, rfl⟩ := Option.map_eq_some_iff.1 hw
  exact (h.entries hv e (List.mem_of_find?_eq_some he)).2

end Respected

end ExprLang
