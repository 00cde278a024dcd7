import ExprLang.Proofs.Evaluating.Builtins
import ExprLang.Proofs.Parsing.Subexpressions

/-!
# What evaluation is put together from

The code of an expression (`Code.eval`), for a property that the variables around it have and that
evaluation is known to keep (`Stable`), by recursion on the expression. The code of a call
(`Code.callBody`) follows: what runs inside of it, the counting of the call left out
(`callWith_eq`).
-/

namespace ExprLang

variable {P : Value → Prop}

/-! ## Stable properties -/

/-- A property that operations respect, and that goes with code: what a function with the property
has as its body may be evaluated, and so may what is inside of it. -/
structure Stable (P : Value → Prop) : Prop extends Respected P where
  body : ∀ {id c}, P (.function id c) → c.body.Fit P
  child : ∀ {e c : Expr}, e.Fit P → c ∈ e.children → c.Fit P

/-- Any code may be run under what the parts alone decide. -/
theorem Hereditary.fit (h : Hereditary P) (e : Expr) : e.Fit P :=
  fun _ _ _ hparts => h.whole hparts .nil

theorem Hereditary.stable (h : Hereditary P) : Stable P :=
  { h.respected with
    body := fun _ => h.fit _
    child := fun _ _ => h.fit _ }

theorem Stable.any : Stable fun _ => True :=
  Hereditary.any.stable

/-! ## All that is inside of a value -/

/-- Whether a value and all values inside of it satisfy `ok`. -/
def Value.Throughout (ok : Value → Prop) (v : Value) : Prop :=
  ∀ u, Inside u v → ok u

section

variable {ok : Value → Prop}

/-- What goes for all inside of a value goes for all inside of a part. -/
theorem Value.Throughout.part {v w : Value} (hv : v.Throughout ok) (hw : w ∈ v.parts) :
    w.Throughout ok :=
  fun u hu => hv u (.part hu hw)

theorem throughout_of_parts {v : Value} (hv : ok v) (hparts : ∀ w ∈ v.parts, w.Throughout ok) :
    v.Throughout ok := by
  rintro u (_ | ⟨hu, hw⟩)
  · exact hv
  · exact hparts _ hw u hu

section

variable (code : Expr → Prop) (hfunction : ∀ {id c}, ok (.function id c) ↔ code c.body)

include hfunction

/-- Code may be run if it is as asked for: a function without variables or defaults is as its body
is. -/
theorem fit_throughout_iff {e : Expr} : e.Fit (Value.Throughout ok) ↔ code e := by
  constructor
  · intro he
    let thunk : Closure Value := ⟨⟨[], none, [], none⟩, e, [], [], [], 0⟩
    exact hfunction.1 (he 0 thunk rfl nofun _ (.refl (.function 0 thunk)))
  · rintro he id c rfl hparts
    exact throughout_of_parts (hfunction.2 he) hparts

/-- What is asked of functions by their code, of builtin functions by their names and of iterators
in any way goes with code if it goes with the parts of code. -/
theorem stable_throughout (hdata : ∀ {v}, v.isData = true → ok v)
    (hbuiltin : ∀ {b : Builtin}, code (.var b.name) → ok (.builtin b))
    (hchild : ∀ {e c : Expr}, code e → c ∈ e.children → code c) :
    Stable (Value.Throughout ok) where
  part := .part
  whole hv hparts _ := throughout_of_parts (hdata hv) hparts
  builtin hb := throughout_of_parts (hbuiltin ((fit_throughout_iff code hfunction).1 hb)) nofun
  merge ha hb := throughout_of_parts (hdata rfl) (Value.forall_mem_dict_parts.2
    (forall_mem_mergeEntries (Value.forall_mem_dict_parts.1 fun _ => ha.part)
      (Value.forall_mem_dict_parts.1 fun _ => hb.part)))
  body hv := (fit_throughout_iff code hfunction).2 (hfunction.1 (hv _ (.refl _)))
  child he hc :=
    (fit_throughout_iff code hfunction).2 (hchild ((fit_throughout_iff code hfunction).1 he) hc)

end

end

/-! ## Expressions -/

namespace Code

variable (hP : Respected P) {r : RealmId} {scope : Scope}

theorem evalItems {items : List Expr}
    (h : ∀ e ∈ items, Code P (fun call => eval call r scope e) P) :
    Code P (fun call => evalItems call r scope items) fun vs => ∀ v ∈ vs, P v := by
  induction items with
  | nil => exact pure (by simp)
  | cons e es ih =>
    rw [List.forall_mem_cons] at h
    exact bind h.1 fun v hv => bind (ih h.2) fun vs hvs => pure (List.forall_mem_cons.2 ⟨hv, hvs⟩)

theorem evalOption {e : Option Expr}
    (h : ∀ e' ∈ e, Code P (fun call => eval call r scope e') P) :
    Code P (fun call => evalOption call r scope e) fun o => ∀ v ∈ o, P v := by
  cases e with
  | none => exact pure (by simp)
  | some e => exact bind (h e rfl) fun v hv => pure (by simpa using hv)

/-- A key is known to have a hash when its entry is put in. -/
theorem evalEntries {es : List (Expr × Expr)}
    (h : ∀ p ∈ es, Code P (fun call => eval call r scope p.1) P ∧
      Code P (fun call => eval call r scope p.2) P) {before : List (Value × Value)}
    (hbefore : ∀ e ∈ before, P e.1 ∧ P e.2) (hkeys : ProperKeys (before.map (·.1))) :
    Code P (fun call => evalEntries call r scope before es) fun entries =>
      (∀ e ∈ entries, P e.1 ∧ P e.2) ∧ ProperKeys (entries.map (·.1)) := by
  induction es generalizing before with
  | nil => exact pure ⟨hbefore, hkeys⟩
  | cons p es ih =>
    rw [List.forall_mem_cons] at h
    refine bind h.1.1 fun k hk => bind (hash k) fun _ hhash => bind h.1.2 fun v hv => ?_
    exact ih h.2 (forall_mem_insertEntry hbefore hk hv) (hkeys.insertEntry hhash v)

include hP

/-- A chain of comparisons, up to the first that does not hold. -/
theorem evalLinks {es : List (Comparison × Expr)}
    (h : ∀ l ∈ es, Code P (fun call => eval call r scope l.2) P) (a : Value) :
    Code P (fun call => evalLinks call r scope a es) fun _ => True := by
  induction es generalizing a with
  | nil => exact pure trivial
  | cons l es ih =>
    rw [List.forall_mem_cons] at h
    exact bind h.1 fun b hb => bind (holds hP _ _ hb) fun _ _ => ite (ih h.2 b) (pure trivial)

/-- Arguments, with the keywords so far. -/
theorem evalArguments {args : List (Argument Expr)}
    (h : ∀ a ∈ args, Code P (fun call => eval call r scope a.value) P) {keywords : Keywords}
    (hkeywords : keywords.Fit P) :
    Code P (fun call => evalArguments call r scope keywords args) (Arguments.Fit P) := by
  induction args generalizing keywords with
  | nil => exact pure ⟨by simp, hkeywords⟩
  | cons a args ih =>
    rw [List.forall_mem_cons] at h
    obtain ⟨ha, hargs⟩ := h
    cases a with
    | positional e =>
      refine bind ha fun v hv => bind (ih hargs hkeywords) fun rest hrest => pure ?_
      exact ⟨List.forall_mem_cons.2 ⟨hv, hrest.positional⟩, hrest.keywords⟩
    | star e =>
      refine bind ha fun v hv => bind (starItems hP hv) fun items hitems => ?_
      refine bind (ih hargs hkeywords) fun rest hrest => pure ?_
      exact ⟨List.forall_mem_append.2 ⟨hitems, hrest.positional⟩, hrest.keywords⟩
    | keyword name e =>
      exact bind ha fun v hv => bind (lift (gives_addKeyword hkeywords name hv)) fun _ hk =>
        ih hargs hk
    | doubleStar e =>
      exact bind ha fun v hv => bind (lift (gives_addEntries hP hkeywords hv)) fun _ hk =>
        ih hargs hk

omit hP in
theorem evalDefaults {params : List (Param Expr)}
    (h : ∀ p ∈ params, ∀ e ∈ p.default, Code P (fun call => eval call r scope e) P) :
    Code P (fun call => evalDefaults call r scope params) fun os => ∀ o ∈ os, ∀ v ∈ o, P v := by
  induction params with
  | nil => exact pure (by simp)
  | cons p params ih =>
    rw [List.forall_mem_cons] at h
    exact bind (evalOption h.1) fun o ho => bind (ih h.2) fun os hos =>
      pure (List.forall_mem_cons.2 ⟨ho, hos⟩)

omit hP in
theorem evalParams {params : Params Expr}
    (h : ∀ e ∈ params.defaults, Code P (fun call => eval call r scope e) P) :
    Code P (fun call => evalParams call r scope params) fun ds =>
      (∀ o ∈ ds.1, ∀ v ∈ o, P v) ∧ ∀ o ∈ ds.2, ∀ v ∈ o, P v := by
  obtain ⟨positional, varargs, keywordOnly, kwargs⟩ := params
  have hdefaults : ∀ ps ⊆ positional ++ keywordOnly, Code P
      (fun call => ExprLang.evalDefaults call r scope ps) fun os => ∀ o ∈ os, ∀ v ∈ o, P v :=
    fun ps hps => evalDefaults fun p hp e he => h e (List.mem_filterMap.2 ⟨p, hps hp, he⟩)
  exact bind (hdefaults _ (List.subset_append_left _ _)) fun _ hpositional =>
    bind (hdefaults _ (List.subset_append_right _ _)) fun _ hkeywordOnly =>
      pure ⟨hpositional, hkeywordOnly⟩

omit hP in
/-- The code of an expression. A lambda keeps the variables around it, which is where their
property passes into values. -/
theorem eval (hP : Stable P) (r : RealmId) {scope : Scope} (hscope : ∀ b ∈ scope, P b.2) {e : Expr}
    (he : e.Fit P) : Code P (fun call => eval call r scope e) P := by
  induction e using Expr.induct_children with
  | h e ih =>
    have hchildren : ∀ c ∈ e.children, c.Fit P := fun c => hP.child he
    replace ih : ∀ c ∈ e.children, Code P (fun call => ExprLang.eval call r scope c) P :=
      fun c hc => ih c hc (hchildren c hc)
    replace hP := hP.toRespected
    match e with
    | .literal value => exact pure (hP.atom (by cases value <;> rfl))
    | .var name => exact lookup hP r hscope he
    | .tuple es => exact bind (evalItems ih) fun _ hitems => newTuple hP hitems
    | .list es => exact bind (evalItems ih) fun _ hitems => newList hP hitems
    | .dict es =>
      simp only [Expr.children, List.forall_mem_append, List.forall_mem_map] at ih
      exact bind (evalEntries (fun p hp => ⟨ih.1 p hp, ih.2 p hp⟩) (by simp) .nil)
        fun _ hentries => newDict hP hentries.1 hentries.2
    | .unary op a =>
      simp only [Expr.children, List.forall_mem_singleton] at ih
      exact bind ih fun _ _ => lift (gives_unaryOp hP _ _)
    | .binary op a b =>
      simp only [Expr.children, List.forall_mem_cons] at ih
      exact bind ih.1 fun _ ha => bind ih.2.1 fun _ hb => binaryOp hP ha hb op
    | .bool op a b =>
      simp only [Expr.children, List.forall_mem_cons] at ih
      refine bind ih.1 fun v hv => ?_
      cases op <;> cases v.isTruthy
      · exact pure hv
      · exact ih.2.1
      · exact ih.2.1
      · exact pure hv
    | .not a =>
      simp only [Expr.children, List.forall_mem_singleton] at ih
      exact bind ih fun _ _ => pure (hP.atom rfl)
    | .compare first es =>
      simp only [Expr.children, List.forall_mem_cons, List.forall_mem_map] at ih
      exact bind ih.1 fun v _ => bind (evalLinks hP ih.2 v) fun _ _ => pure (hP.atom rfl)
    | .conditional test yes no =>
      simp only [Expr.children, List.forall_mem_cons] at ih
      exact bind ih.1 fun _ _ => ite ih.2.1 ih.2.2.1
    | .attribute target name =>
      simp only [Expr.children, List.forall_mem_singleton] at ih
      exact bind ih fun _ hv => bind freshId fun id _ => lift (gives_attribute hP hv id name)
    | .item target index =>
      simp only [Expr.children, List.forall_mem_cons] at ih
      exact bind ih.1 fun _ hv => bind ih.2.1 fun _ _ => lift (gives_getItem hP hv _)
    | .slice target lower upper stride =>
      simp only [Expr.children, List.forall_mem_cons, List.forall_mem_append,
        Option.mem_toList] at ih
      have hstride : Code P (fun call => ExprLang.evalOption call r scope stride)
          fun step => step.getD .none = .none ∨ Risk P .addition := by
        cases stride with
        | none => exact pure (.inl rfl)
        | some _ => exact (evalOption ih.2.2).weaken fun _ _ => .inr (.slice he)
      exact bind ih.1 fun _ hv => bind (evalOption ih.2.1.1) fun _ _ =>
        bind (evalOption ih.2.1.2) fun _ _ => bind hstride fun _ hrisk =>
          bind freshId fun id _ => getSlice hP hv id _ _ hrisk
    | .call callee args =>
      simp only [Expr.children, List.forall_mem_cons, List.forall_mem_map] at ih
      exact bind ih.1 fun f hf => bind (evalArguments hP ih.2 .nil) fun args hargs =>
        ask r hf hargs
    | .lambda ps body =>
      simp only [Expr.children, List.forall_mem_append, List.forall_mem_singleton] at ih hchildren
      refine bind (evalParams ih.1) fun ds hds => bind freshId fun _ _ => pure ?_
      refine hchildren.2 _ _ rfl (List.forall_mem_append.2 ⟨List.forall_mem_map.2 hscope, ?_⟩)
      refine List.forall_mem_append.2 ⟨fun v hv => ?_, fun v hv => ?_⟩
      · obtain ⟨o, ho, rfl⟩ := List.mem_filterMap.1 hv
        exact hds.1 _ ho v rfl
      · obtain ⟨o, ho, rfl⟩ := List.mem_filterMap.1 hv
        exact hds.2 _ ho v rfl

end Code

/-! ## Calls -/

/-- The realm that a call counts for, if the value can be called at all. -/
def homeOf? (r : RealmId) : Value → Option RealmId
  | .function _ c => some c.home
  | .builtin _ | .method .. => some r
  | _ => none

/-- What runs inside of a call. -/
def callBody (call : RealmCaller) (r : RealmId) (f : Value) (args : Arguments) : Eval Value :=
  match f with
  | .function _ c => c.run call args
  | .builtin b => b.run (call r) r args
  | .method _ m => m.method.run r m.receiver args
  | v => throw (.type (.notCallable v.typeName))

/-- A value that cannot be called is refused without a look at the caller. -/
theorem callBody_of_homeOf?_eq_none {r : RealmId} {f : Value} (h : homeOf? r f = none) :
    ∃ e, ∀ call args, callBody call r f args = throw e := by
  cases f with
  | function | builtin | method => cases h
  | _ => exact ⟨_, fun _ _ => rfl⟩

/-- A call is counted where the function is at home. -/
theorem callWith_eq (call : RealmCaller) (r : RealmId) (f : Value) (args : Arguments) :
    callWith call r f args = match homeOf? r f with
      | some home => Eval.within home (callBody call r f args)
      | none => callBody call r f args := by
  cases f <;> rfl

/-- The code inside of a call. -/
theorem Code.callBody (hP : Stable P) (r : RealmId) {f : Value} (hf : P f) {args : Arguments}
    (hargs : args.Fit P) : Code P (fun call => callBody call r f args) P := by
  have hrespected := hP.toRespected
  cases f with
  | function id c =>
    have hparts : ∀ v ∈ c.parts, P v := fun _ => hP.part hf
    refine bind freshId fun tupleId _ => bind freshId fun dictId _ => ?_
    refine bind (lift (gives_closureBind hrespected hparts tupleId dictId hargs))
      fun frame hframe => ?_
    refine eval hP c.home (List.forall_mem_append.2 ⟨hframe, fun b hb => ?_⟩) (hP.body hf)
    exact hparts b.2 (List.mem_append_left _ (List.mem_map_of_mem hb))
  | builtin b => exact builtin hrespected r hf hargs
  | method id m => exact method hrespected r m.method (hrespected.method.1 hf) hargs
  | _ => exact throw trivial

end ExprLang
