import ExprLang.Proofs.Evaluating.Binding
import ExprLang.Proofs.Running
import ExprLang.Proofs.Values.Slicing

/-!
# Code over the store

Everything that an evaluation runs is put together from few steps: values are returned and errors
thrown, a flag is polled, a definition is looked up, identities and iterators are made and items are
taken (`Step`), and values are called. Code is a function of the caller that it is handed, and
`Code P act Q` says how `act` is put together, that no value without the property `P` is called,
handed over or kept in an iterator, that items are taken only from iterators with the property, that
names are looked up and a panic is risked (`Risk`) only if functions with the property may do so,
and that the value it returns satisfies `Q`. The property is any that operations respect; with
`fun _ => True` nothing is said of values but that no step is left out.

What every run of an evaluation does is shown by induction on `Code`, one case for each kind of
step. The only thing outside of it is the counting of calls, in `Eval.within`.
-/

namespace ExprLang

variable {α β : Type} {P : Value → Prop}

/-- What a variable is looked up as is among the variables. -/
theorem mem_of_lookup {scope : Scope} {name : String} {v : Value}
    (h : scope.lookup name = some v) : (name, v) ∈ scope := by
  obtain ⟨before, after, rfl, -⟩ := List.lookup_eq_some_iff.1 h
  simp

/-! ## Steps -/

/-- The definition of a name in a realm. -/
def Eval.definition? (r : RealmId) (name : String) : Eval (Option Value) :=
  return ((← get).realm r).globals.lookup name

/-- The value of a name that is no variable, from its definition if there is one. -/
theorem Eval.lookup_eq_of_none {r : RealmId} {scope : Scope} {name : String}
    (hlocal : scope.lookup name = none) : Eval.lookup r scope name =
      Eval.definition? r name >>= fun found => found.elim
        ((Builtin.ofName? name).elim (throw (.unbound name)) fun b => pure (.builtin b)) pure := by
  funext s
  have hdefinition : Eval.definition? r name s = .ok ((s.realm r).globals.lookup name) s := rfl
  unfold lookup
  rw [hlocal, run_ok hdefinition]
  refine (run_get _ s).trans ?_
  cases (s.realm r).globals.lookup name with
  | some v => rfl
  | none => cases Builtin.ofName? name <;> rfl

/-- The steps that make identities and iterators, look at addresses and take items. They do not look
at realms. -/
inductive Step (P : Value → Prop) : {α : Type} → Eval α → (α → Prop) → Prop
  | freshId : Step P Eval.freshId fun _ => True
  | addresses : Step P Eval.addresses fun _ => True
  | newIterator {items : List Value} :
    (∀ v ∈ items, P v) → Step P (Eval.newIterator items) P
  | takeAll {id : IteratorId} :
    P (.iterator id) → Step P (Eval.takeAll id) fun items => ∀ v ∈ items, P v
  | takeNext? {id : IteratorId} :
    P (.iterator id) → Step P (Eval.takeNext? id) fun item => ∀ v ∈ item, P v

/-- What code among values with a property may do that can make the program panic: take a slice in
steps, and call the builtin function for powers. -/
inductive Risk (P : Value → Prop) : Panic → Prop
  | slice {target stride : Expr} {lower upper : Option Expr} :
    (Expr.slice target lower upper (some stride)).Fit P → Risk P .addition
  | power : P (.builtin .pow) → Risk P .negation

/-- How code is put together, and what its value satisfies. -/
inductive Code (P : Value → Prop) : {α : Type} → (RealmCaller → Eval α) → (α → Prop) → Prop
  | pure {α : Type} {Q : α → Prop} {a : α} : Q a → Code P (fun _ => Pure.pure a) Q
  | throw {α : Type} {Q : α → Prop} {e : RuntimeError} :
    e.Ordinary → Code P (fun _ => MonadExcept.throw e : RealmCaller → Eval α) Q
  | panic {α : Type} {Q : α → Prop} {cause : Panic} :
    Risk P cause → Code P (fun _ => MonadExcept.throw (.panic cause) : RealmCaller → Eval α) Q
  | bind {α β : Type} {x : RealmCaller → Eval α} {f : RealmCaller → α → Eval β} {Q : α → Prop}
    {R : β → Prop} : Code P x Q → (∀ a, Q a → Code P (fun call => f call a) R) →
    Code P (fun call => x call >>= f call) R
  | weaken {α : Type} {x : RealmCaller → Eval α} {Q R : α → Prop} :
    Code P x Q → (∀ a, Q a → R a) → Code P x R
  | ask {f : Value} {args : Arguments} (r : RealmId) :
    P f → args.Fit P → Code P (fun call => call r f args) P
  | poll (r : RealmId) : Code P (fun _ => Eval.poll r) fun _ => True
  | definition? {name : String} (r : RealmId) :
    (Expr.var name).Fit P → Code P (fun _ => Eval.definition? r name) fun v => ∀ w ∈ v, P w
  | step {α : Type} {x : Eval α} {Q : α → Prop} : Step P x Q → Code P (fun _ => x) Q

namespace Code

/-! ## Code put together -/

theorem lift {x : Except RuntimeError α} {Q : α → Prop} (h : Gives x Q) :
    Code P (fun _ => (liftM x : Eval α)) Q := by
  cases x with
  | ok a => exact pure h
  | error e => exact throw h

theorem ite {c : Prop} [Decidable c] {x y : RealmCaller → Eval α} {Q : α → Prop} (hx : Code P x Q)
    (hy : Code P y Q) : Code P (fun call => if c then x call else y call) Q := by
  by_cases hc : c
  · simpa [hc] using hx
  · simpa [hc] using hy

/-- A fold keeps what each of its steps keeps. -/
theorem foldlM {f : RealmCaller → β → α → Eval β} {I : β → Prop} {as : List α}
    (hf : ∀ a ∈ as, ∀ b, I b → Code P (fun call => f call b a) I) {b : β} (hb : I b) :
    Code P (fun call => as.foldlM (f call) b) I := by
  induction as generalizing b with
  | nil => exact pure hb
  | cons a as ih =>
    rw [List.forall_mem_cons] at hf
    simp only [List.foldlM_cons]
    exact bind (hf.1 b hb) fun b' hb' => ih hf.2 hb'

theorem mapM {f : RealmCaller → α → Eval β} {Q : β → Prop} {as : List α}
    (hf : ∀ a ∈ as, Code P (fun call => f call a) Q) :
    Code P (fun call => as.mapM (f call)) fun bs => ∀ b ∈ bs, Q b := by
  induction as with
  | nil => exact pure (by simp)
  | cons a as ih =>
    rw [List.forall_mem_cons] at hf
    simp only [List.mapM_cons]
    exact bind hf.1 fun b hb => bind (ih hf.2) fun bs hbs => pure (List.forall_mem_cons.2 ⟨hb, hbs⟩)

/-! ## The store -/

theorem freshId : Code P (fun _ => Eval.freshId) fun _ => True :=
  step .freshId

theorem newIterator {items : List Value} (h : ∀ v ∈ items, P v) :
    Code P (fun _ => Eval.newIterator items) P :=
  step (.newIterator h)

/-- What an iterator has left is allowed. -/
theorem takeAll {id : IteratorId} (hid : P (.iterator id)) :
    Code P (fun _ => Eval.takeAll id) fun items => ∀ v ∈ items, P v :=
  step (.takeAll hid)

/-- A look at the hash of a value, which ends the code if there is none. -/
theorem hash (v : Value) : Code P (fun _ => (discard v.hash : Eval PUnit)) fun _ => v.Hashable := by
  refine bind (Q := fun _ => v.Hashable) ?_ fun _ hv => pure hv
  cases hv : v.hash with
  | ok h => exact pure ⟨h, hv⟩
  | error e =>
    refine throw ?_
    simpa [hv] using ordinary_hash v

section

variable (hP : Respected P)

include hP

theorem newTuple {items : List Value} (h : ∀ v ∈ items, P v) :
    Code P (fun _ => Eval.newTuple items) P :=
  bind freshId fun _ _ => pure (hP.tuple.2 h)

theorem newList {items : List Value} (h : ∀ v ∈ items, P v) :
    Code P (fun _ => Eval.newList items) P :=
  bind freshId fun _ _ => pure (hP.list.2 h)

/-- A dict of entries that are allowed, under proper keys. -/
theorem newDict {entries : List (Value × Value)} (h : ∀ e ∈ entries, P e.1 ∧ P e.2)
    (hkeys : ProperKeys (entries.map (·.1))) : Code P (fun _ => Eval.newDict entries) P :=
  bind freshId fun _ _ => pure (hP.dict h hkeys)

/-- The items of whatever is iterated. -/
theorem iterate {v : Value} (hv : P v) :
    Code P (fun _ => Eval.iterate v) fun items => ∀ w ∈ items, P w := by
  unfold Eval.iterate
  split
  · exact takeAll hv
  · split
    · next items hitems => exact pure (hP.items hv hitems)
    · exact throw trivial

/-- What an argument with a star hands over. Looking for items calls nothing, so only the error of
its own is changed. -/
theorem starItems {v : Value} (hv : P v) :
    Code P (fun _ => Eval.starItems v) fun items => ∀ w ∈ items, P w := by
  cases v with
  | iterator id => exact takeAll hv
  | str s => exact pure (hP.items (v := .str s) hv rfl)
  | tuple id items => exact pure (hP.tuple.1 hv)
  | list id items => exact pure (hP.list.1 hv)
  | dict id entries => exact pure (hP.items hv rfl)
  | _ => exact throw trivial

theorem contains {container : Value} (hcontainer : P container) (item : Value) :
    Code P (fun _ => Eval.contains container item) fun _ => True := by
  cases container with
  | str s =>
    cases item with
    | str part => exact pure trivial
    | _ => exact throw trivial
  | dict id entries => exact bind (hash item) fun _ _ => pure trivial
  | tuple | list | iterator => exact bind (iterate hP hcontainer) fun _ _ => pure trivial
  | _ => exact throw trivial

theorem holds (link : Comparison) (a : Value) {b : Value} (hb : P b) :
    Code P (fun _ => Eval.holds link a b) fun _ => True := by
  unfold Eval.holds
  cases hholds : link.holds? a b with
  | none => exact bind (contains hP hb a) fun _ _ => pure trivial
  | some result => exact lift (ordinary_holds result hholds)

omit hP in
theorem liftM_bind (x : Except RuntimeError α) (f : α → Except RuntimeError β) :
    (liftM (x >>= f) : Eval β) = liftM x >>= fun a => liftM (f a) := by
  cases x <;> rfl

omit hP in
/-- The places of a slice are found, unless there is a step that is large enough to panic. -/
theorem slicePlaces (len : Nat) (lower upper : Option Int) {step : Int} (hstep : step ≠ 0)
    (hrisk : step ≤ 1 ∨ Risk P .addition) :
    Code P (fun _ => (liftM (ExprLang.slicePlaces len lower upper step) : Eval (List Nat)))
      fun _ => True := by
  by_cases hfit : StepsFit len (startPlace len step lower) (stopPlace len step upper) step
  · obtain ⟨places, hplaces, -⟩ := slicePlaces_of_stepsFit hstep hfit
    rw [hplaces]
    exact pure trivial
  · rw [slicePlaces_of_not_stepsFit hstep hfit]
    exact panic (hrisk.resolve_left fun hle => hfit (stepsFit_of_le_one hle))

/-- A slice risks a panic only if it has a step. -/
theorem getSlice {v : Value} (hv : P v) (id : Identity) (lower upper : Value) {step : Value}
    (hrisk : step = .none ∨ Risk P .addition) :
    Code P (fun _ => (liftM (Value.getSlice id v lower upper step) : Eval Value)) P := by
  have hbound : Gives step.sliceBound fun s => s.getD 1 ≤ 1 ∨ Risk P .addition := by
    obtain rfl | hrisk := hrisk
    · exact .inl le_rfl
    · exact (ordinary_sliceBound step).imp fun _ _ => .inr hrisk
  unfold Value.getSlice
  rw [liftM_bind]
  refine bind (lift hbound) fun s hs => ?_
  by_cases hstep : s.getD 1 = 0
  · simp only [if_pos hstep]
    exact throw (e := .value .zeroStep) trivial
  · simp only [if_neg hstep, liftM_bind]
    exact bind (lift (ordinary_size v)) fun len _ =>
      bind (lift (ordinary_sliceBound lower)) fun _ _ =>
        bind (lift (ordinary_sliceBound upper)) fun _ _ =>
          bind (slicePlaces len _ _ hstep hs) fun places _ => lift (gives_takenAt hP hv id places)

theorem lookup (r : RealmId) {scope : Scope} (hscope : ∀ b ∈ scope, P b.2) {name : String}
    (hname : (Expr.var name).Fit P) : Code P (fun _ => Eval.lookup r scope name) P := by
  cases hlocal : scope.lookup name with
  | some v =>
    unfold Eval.lookup
    rw [hlocal]
    exact pure (hscope (name, v) (mem_of_lookup hlocal))
  | none =>
    rw [Eval.lookup_eq_of_none hlocal]
    refine bind (definition? r hname) fun v hv => ?_
    cases v with
    | some v => exact pure (hv v rfl)
    | none =>
      cases hb : Builtin.ofName? name with
      | none => exact throw trivial
      | some b =>
        obtain rfl := Builtin.name_of_ofName? hb
        exact pure (hP.builtin hname)

end

end Code

end ExprLang
