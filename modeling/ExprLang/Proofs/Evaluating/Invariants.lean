import ExprLang.Proofs.Evaluating.Entering
import ExprLang.Proofs.Evaluating.Expressions

/-!
# What evaluation keeps

A store fits a property of values if every definition in it and every item left to an iterator has
the property (`Store.Fit`). Only the items of iterators that have the property themselves are ever
taken, so it is enough to know of those (`Store.Holds`). Evaluation keeps every stable property:
from values that have it and a store that holds it, it makes values that have it, and leaves a store
that holds it, also when it fails (`eval_kept`). Code does if its caller does (`Code.kept`); the
rest is induction on the number of calls inside of one another (`callValue_keeps`).
-/

namespace ExprLang

variable {α β : Type} {P : Value → Prop}

/-! ## Stores -/

/-- Whether the values in a store have a property. -/
structure Store.Fit (P : Value → Prop) (s : Store) : Prop where
  globals : ∀ realm ∈ s.realms, ∀ b ∈ realm.globals, P b.2
  items : ∀ id, ∀ v ∈ s.itemsLeft id, P v

/-- Whether a store holds a property: its definitions have it, the items of iterators that have it
do, and so do iterators still to be made. -/
structure Store.Holds (P : Value → Prop) (s : Store) : Prop where
  globals : ∀ realm ∈ s.realms, ∀ b ∈ realm.globals, P b.2
  items : ∀ id, P (.iterator id) → ∀ v ∈ s.itemsLeft id, P v
  fresh : ∀ id, s.iterators.size ≤ id → P (.iterator id)

/-- Where all iterators have the property, all items count. -/
theorem Store.holds_iff {s : Store} (hP : ∀ id, P (.iterator id)) : s.Holds P ↔ s.Fit P :=
  ⟨fun h => ⟨h.globals, fun id => h.items id (hP id)⟩,
    fun h => ⟨h.globals, fun id _ => h.items id, fun id _ => hP id⟩⟩

theorem Store.holds_any (s : Store) : s.Holds fun _ => True :=
  ⟨fun _ _ _ _ => trivial, fun _ _ _ _ => trivial, fun _ _ => trivial⟩

/-- A change to one realm keeps what is said of the globals of all. -/
theorem Store.forall_globals_modifyRealm {s : Store}
    (hs : ∀ realm ∈ s.realms, ∀ b ∈ realm.globals, P b.2) (r : RealmId) {f : Realm → Realm}
    (hf : ∀ realm ∈ s.realms, ∀ b ∈ (f realm).globals, P b.2) :
    ∀ realm ∈ (s.modifyRealm r f).realms, ∀ b ∈ realm.globals, P b.2 := by
  intro realm hrealm
  obtain ⟨i, hi⟩ := List.mem_iff_getElem?.1 hrealm
  rw [Store.modifyRealm, List.getElem?_modify] at hi
  obtain ⟨before, hbefore, rfl⟩ := Option.map_eq_some_iff.1 hi
  have hmem := List.mem_of_getElem? hbefore
  split
  · exact hf before hmem
  · exact hs before hmem

/-- What is said of all globals is said of those of one realm. -/
theorem Store.forall_globals_realm {s : Store}
    (hs : ∀ realm ∈ s.realms, ∀ b ∈ realm.globals, P b.2) (r : RealmId) :
    ∀ b ∈ (s.realm r).globals, P b.2 := by
  unfold Store.realm
  cases hr : s.realms[r]? with
  | none => nofun
  | some realm => exact hs realm (List.mem_of_getElem? hr)

theorem Store.Fit.realm {s : Store} (hs : s.Fit P) (r : RealmId) :
    ∀ b ∈ (s.realm r).globals, P b.2 :=
  forall_globals_realm hs.globals r

/-- A store stays fit if a realm is changed for one that fits. -/
theorem Store.Fit.modifyRealm {s : Store} (hs : s.Fit P) (r : RealmId) {f : Realm → Realm}
    (hf : ∀ realm ∈ s.realms, ∀ b ∈ (f realm).globals, P b.2) : (s.modifyRealm r f).Fit P :=
  ⟨forall_globals_modifyRealm hs.globals r hf, hs.items⟩

namespace Store.Holds

variable {s : Store}

/-- A store holds to a property if a realm is changed for one that fits. -/
theorem modifyRealm (hs : s.Holds P) (r : RealmId) {f : Realm → Realm}
    (hf : ∀ realm ∈ s.realms, ∀ b ∈ (f realm).globals, P b.2) : (s.modifyRealm r f).Holds P :=
  ⟨forall_globals_modifyRealm hs.globals r hf, hs.items, hs.fresh⟩

/-- A new iterator over such values. -/
theorem push (hs : s.Holds P) {items : List Value} (h : ∀ v ∈ items, P v) :
    Store.Holds P { s with iterators := s.iterators.push items } := by
  refine ⟨hs.globals, fun id hid => ?_, fun id hid => hs.fresh id ?_⟩
  · have hid := hs.items id hid
    unfold Store.itemsLeft at hid ⊢
    rw [Array.getElem?_push]
    split
    · exact h
    · exact hid
  · simp only [Array.size_push] at hid
    omega

theorem drop (hs : s.Holds P) (id : IteratorId) {f : List Value → List Value}
    (hf : ∀ items, f items ⊆ items) :
    Store.Holds P { s with iterators := s.iterators.modify id f } := by
  refine ⟨hs.globals, fun i hi => ?_, fun i hi => hs.fresh i (by simpa using hi)⟩
  have hi := hs.items i hi
  unfold Store.itemsLeft at hi ⊢
  rw [Array.getElem?_modify]
  split
  · cases hold : s.iterators[i]? with
    | none => nofun
    | some items =>
      rw [hold] at hi
      exact fun v hv => hi v (hf items hv)
  · exact hi

end Store.Holds

/-! ## Results -/

/-- Whether an evaluation left a store that holds a property and, if it came to a value, one that
satisfies `Q`. -/
structure Kept (P : Value → Prop) (Q : α → Prop) (result : EStateM.Result RuntimeError Store α) :
    Prop where
  store : (storeAfter result).Holds P
  value : ∀ a s, result = .ok a s → Q a

namespace Kept

variable {Q : α → Prop} {R : β → Prop} {s : Store}

theorem ok {a : α} (ha : Q a) (hs : s.Holds P) : Kept P Q (.ok a s) :=
  ⟨hs, fun _ _ h => (EStateM.Result.ok.inj h).1 ▸ ha⟩

theorem error (e : RuntimeError) (hs : s.Holds P) : Kept (α := α) P Q (.error e s) :=
  ⟨hs, nofun⟩

theorem bind {x : Eval α} {f : α → Eval β} (hx : Kept P Q (x s))
    (hf : ∀ a s', Q a → s'.Holds P → Kept P R (f a s')) : Kept P R ((x >>= f) s) := by
  cases hrun : x s with
  | ok a s' =>
    rw [run_ok hrun]
    exact hf a s' (hx.value a s' hrun) (hrun ▸ hx).store
  | error e s' =>
    rw [run_error hrun]
    exact error e (hrun ▸ hx).store

theorem poll (hs : s.Holds P) (r : RealmId) : Kept P (fun _ => True) (Eval.poll r s) := by
  rw [Eval.poll_eq]
  split
  · exact error _ (hs.modifyRealm r hs.globals)
  · exact ok trivial hs

theorem step {x : Eval α} (h : Step P x Q) (hs : s.Holds P) : Kept P Q (x s) := by
  cases h with
  | freshId => exact ok trivial ⟨hs.globals, hs.items, hs.fresh⟩
  | addresses => exact ok trivial hs
  | newIterator hitems => exact ok (hs.fresh _ (Nat.le_refl _)) (hs.push hitems)
  | takeAll hid => exact ok (hs.items _ hid) (hs.drop _ fun _ => List.nil_subset _)
  | takeNext? hid =>
    refine ok (fun v hv => ?_) (hs.drop _ fun _ => List.tail_sublist _ |>.subset)
    exact hs.items _ hid v (List.mem_of_mem_head? hv)

/-- The count of calls holds no values. -/
theorem within {x : Eval α} (hs : s.Holds P) (r : RealmId)
    (hx : ∀ s', s'.Holds P → Kept P Q (x s')) : Kept P Q (Eval.within r x s) := by
  rw [Eval.within_eq]
  split
  · exact error _ (hs.modifyRealm r hs.globals)
  · split
    · exact error _ hs
    · have hrun := hx (s.entered r) (hs.modifyRealm r hs.globals)
      have hafter : (Eval.left r (storeAfter (x (s.entered r)))).Holds P :=
        hrun.store.modifyRealm r hrun.store.globals
      cases hresult : x (s.entered r) with
      | ok a s' =>
        rw [hresult] at hafter
        exact ok (hrun.value a s' hresult) hafter
      | error e s' =>
        rw [hresult] at hafter
        exact error e hafter

end Kept

/-! ## Runs -/

/-- A caller whose calls keep a property of values. -/
def RealmCaller.Keeps (P : Value → Prop) (call : RealmCaller) : Prop :=
  ∀ r f args s, P f → args.Fit P → s.Holds P → Kept P P (call r f args s)

/-- By induction on the code: it keeps what the calls in it keep. -/
theorem Code.kept {act : RealmCaller → Eval α} {Q : α → Prop} (h : Code P act Q)
    {call : RealmCaller} (hcall : call.Keeps P) {s : Store} (hs : s.Holds P) :
    Kept P Q (act call s) := by
  induction h generalizing s with
  | pure ha => exact .ok ha hs
  | throw | panic => exact .error _ hs
  | bind _ _ ihx ihf => exact .bind (ihx hs) fun a s' ha hs' => ihf a ha hs'
  | weaken _ himp ih => exact ⟨(ih hs).store, fun a s' hrun => himp a ((ih hs).value a s' hrun)⟩
  | ask r hf hargs => exact hcall r _ _ s hf hargs hs
  | poll r => exact .poll hs r
  | definition? r _ =>
    exact .ok (fun v hv => Store.forall_globals_realm hs.globals r _ (mem_of_lookup hv)) hs
  | step h => exact .step h hs

/-- A call keeps what the calls in it keep. -/
theorem callWith_keeps (hP : Stable P) {call : RealmCaller} (hcall : call.Keeps P) :
    RealmCaller.Keeps P (callWith call) := by
  intro r f args s hf hargs hs
  have hbody : ∀ s', s'.Holds P → Kept P P (callBody call r f args s') := fun s' hs' =>
    (Code.callBody hP r hf hargs).kept hcall hs'
  rw [callWith_eq]
  cases homeOf? r f with
  | some home => exact .within hs home hbody
  | none => exact hbody s hs

/-- By induction on the fuel: calls of any depth keep the property. -/
theorem callValue_keeps (hP : Stable P) (n : Nat) : (callValue n).Keeps P := by
  induction n with
  | zero => exact fun _ _ _ _ _ _ hs => .error _ hs
  | succ n ih => exact callWith_keeps hP ih

/-- Evaluation keeps every stable property. -/
theorem eval_kept (hP : Stable P) {n : Nat} (r : RealmId) {scope : Scope}
    (hscope : ∀ b ∈ scope, P b.2) {e : Expr} (he : e.Fit P) {s : Store} (hs : s.Holds P) :
    Kept P P (eval (callValue n) r scope e s) :=
  (Code.eval hP r hscope he).kept (callValue_keeps hP n) hs

/-- What is known of the value of code, whatever it is handed. -/
theorem Code.value {act : RealmCaller → Eval α} {Q : α → Prop} (h : Code (fun _ => True) act Q)
    {call : RealmCaller} {s s' : Store} {a : α} (hrun : act call s = .ok a s') : Q a := by
  have hcall : call.Keeps fun _ => True := fun _ _ _ _ _ _ _ =>
    ⟨Store.holds_any _, fun _ _ _ => trivial⟩
  exact (h.kept hcall s.holds_any).value a s' hrun

end ExprLang
