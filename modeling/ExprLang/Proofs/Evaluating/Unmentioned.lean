import ExprLang.Proofs.Evaluating.Lines
import ExprLang.Proofs.Evaluating.Mirrors

/-!
# Definitions that no code mentions

A definition matters only to code that mentions its name. If a line does not, and no function that
is within reach of the definitions does (`Store.Reaches`), then it makes no difference to the line
whether there is such a definition: neither to what the line comes to, nor to anything that it
leaves but the definition itself (`Session.evalLine_define`). It may stand for anything, and hide a
builtin function, as builtin functions and methods go by no names.

Code makes functions only out of itself and of what it is handed. So that no function mentions the
name is stable (`stable_unaware`), once it is known of the items of all iterators within reach,
which are in the store and not inside of values. Evaluation under the definition then mirrors
evaluation without it (`unseen_define`).
-/

namespace ExprLang

/-! ## Mentions -/

/-- Whether a name stands somewhere in an expression, to be looked up. -/
def Expr.Mentions (e : Expr) (name : String) : Prop :=
  e.Contains (.var name)

/-- A name is mentioned by a variable, or in a part. -/
theorem Expr.mentions_iff {e : Expr} {name : String} :
    e.Mentions name ↔ e = .var name ∨ ∃ c ∈ e.children, c.Mentions name := by
  constructor
  · rintro (_ | ⟨hc, hmentions⟩)
    · exact .inl rfl
    · exact .inr ⟨_, hc, hmentions⟩
  · rintro (rfl | ⟨c, hc, hmentions⟩)
    · exact .refl _
    · exact .inside hc hmentions

@[simp]
theorem Expr.mentions_literal (value : Literal) (name : String) :
    ¬(Expr.literal value).Mentions name := by
  rw [mentions_iff]
  simp [children]

@[simp]
theorem Expr.mentions_var {name other : String} :
    (Expr.var other).Mentions name ↔ other = name := by
  rw [mentions_iff]
  simp [children]

/-- A call mentions what its parts do. -/
@[simp]
theorem Expr.mentions_call {callee : Expr} {args : List (Argument Expr)} {name : String} :
    (Expr.call callee args).Mentions name ↔
      callee.Mentions name ∨ ∃ e ∈ args.map Argument.value, e.Mentions name := by
  rw [mentions_iff]
  simp [children]

/-- Whether a line neither mentions a name nor defines it. -/
def Line.Avoids (name : String) : Line → Prop
  | .blank => True
  | .definition defined e => defined ≠ name ∧ ¬e.Mentions name
  | .expr e => ¬e.Mentions name

/-! ## Reach -/

/-- The values that can be come by in a store: the definitions, what is inside of them, and the
items left to iterators among these. -/
inductive Store.Reaches (s : Store) : Value → Prop
  | definition {realm : Realm} {b : String × Value} : realm ∈ s.realms → b ∈ realm.globals →
    Reaches s b.2
  | part {v w : Value} : Reaches s v → w ∈ v.parts → Reaches s w
  | item {id : IteratorId} {v : Value} : Reaches s (.iterator id) → v ∈ s.itemsLeft id → Reaches s v

/-- What is inside of a value within reach is within reach. -/
theorem Store.Reaches.inside {s : Store} {u v : Value} (hv : s.Reaches v) (hu : u.Inside v) :
    s.Reaches u := by
  induction hu with
  | refl => exact hv
  | part _ hpart ih => exact ih (hv.part hpart)

/-- Whether a value is no function that mentions a name, and no iterator but a known one. -/
def Value.Omits (name : String) (known : IteratorId → Prop) : Value → Prop
  | .function _ c => ¬c.body.Mentions name
  | .iterator id => known id
  | _ => True

/-- Whether no function inside of a value mentions a name, and all iterators inside of it are
known. -/
def Value.Unaware (name : String) (known : IteratorId → Prop) (v : Value) : Prop :=
  v.Throughout (Value.Omits name known)

section

variable {name : String} {known : IteratorId → Prop}

/-- Data has no code, so it omits every name. -/
theorem omits_of_isData {v : Value} (hv : v.isData = true) : v.Omits name known := by
  cases v with
  | function | iterator => cases hv
  | _ => trivial

/-- Code may be run if it does not mention the name. -/
theorem fit_unaware_iff {e : Expr} : e.Fit (Value.Unaware name known) ↔ ¬e.Mentions name :=
  fit_throughout_iff (fun e => ¬e.Mentions name) Iff.rfl

/-- Evaluation makes no mention of a name out of code without one. -/
theorem stable_unaware : Stable (Value.Unaware name known) :=
  stable_throughout (fun e => ¬e.Mentions name) Iff.rfl omits_of_isData (fun _ => trivial)
    fun he hc hmentions => he (.inside hc hmentions)

end

/-- The iterators that a store lets code come by: those within reach, and those still to be made. -/
def Store.Known (s : Store) (id : IteratorId) : Prop :=
  s.Reaches (.iterator id) ∨ s.iterators.size ≤ id

/-- What is within reach is unaware of a name that no function within reach mentions. -/
theorem Store.Reaches.unaware {s : Store} {name : String}
    (hfunctions : ∀ id c, s.Reaches (.function id c) → ¬c.body.Mentions name) {v : Value}
    (hv : s.Reaches v) : v.Unaware name s.Known := by
  intro u hu
  have hreached := hv.inside hu
  cases u with
  | function id c => exact hfunctions id c hreached
  | iterator id => exact .inl hreached
  | _ => trivial

theorem Store.holds_unaware {s : Store} {name : String}
    (hfunctions : ∀ id c, s.Reaches (.function id c) → ¬c.body.Mentions name) :
    s.Holds (Value.Unaware name s.Known) where
  globals realm hrealm b hb := (Reaches.definition hrealm hb).unaware hfunctions
  items id hid v hv := by
    obtain hreached | hnew : s.Known id := hid _ (.refl _)
    · exact (hreached.item hv).unaware hfunctions
    · have hnone : s.itemsLeft id = [] := by
        unfold itemsLeft
        rw [Array.getElem?_eq_none hnew]
        rfl
      rw [hnone] at hv
      cases hv
  fresh id hid := throughout_of_parts (v := .iterator id) (.inr hid) nofun

/-! ## Two runs -/

/-- A variable is found without the others. -/
theorem lookup_filter_ne {name other : String} (hother : other ≠ name) (scope : Scope) :
    (scope.filter (·.1 != name)).lookup other = scope.lookup other := by
  induction scope with
  | nil => rfl
  | cons b scope ih =>
    rw [List.filter_cons]
    split
    · rw [List.lookup_cons, List.lookup_cons, ih]
    · next hb =>
      have hne : (other == b.1) = false := by
        rw [beq_eq_false_iff_ne]
        rintro rfl
        exact hb (bne_iff_ne.2 hother)
      rw [ih, List.lookup_cons, hne]

/-- A definition leaves the other globals. -/
theorem Realm.lookup_define {name other : String} (hother : other ≠ name) (v : Value)
    (realm : Realm) : (realm.define name v).globals.lookup other = realm.globals.lookup other := by
  have hne : (other == name) = false := beq_eq_false_iff_ne.2 hother
  unfold define
  rw [List.lookup_cons, hne]
  exact lookup_filter_ne hother realm.globals

/-- Where the name is not mentioned, its definition is never looked up. -/
theorem unseen_define {name : String} {known : IteratorId → Prop} (home : RealmId) (v : Value) :
    Unseen (Value.Unaware name known)
      (fun r realm => if home = r then realm.define name v else realm)
      (fun _ _ => False) (Store.Holds (Value.Unaware name known)) where
  kept := lasting_holds stable_unaware
  after := False.elim
  globals r realm other hfit := by
    have hother : other ≠ name := fun h => fit_unaware_iff.1 hfit (h ▸ .refl _)
    split
    · exact realm.lookup_define hother v
    · rfl
  flag r realm := by split <;> rfl
  depth r realm d := by split <;> rfl
  heeded {s r} hinterrupted := .inr (by split <;> exact hinterrupted)
  unheeded {r realm} hfree := by split <;> exact hfree
  refused {s r} hfull := .inr (by split <;> exact hfull)
  admitted {s r} hs hroom := ⟨by split <;> exact hroom, hs.modifyRealm r hs.globals⟩

/-- Evaluation without mention of the name is the same under a definition of it. -/
theorem run_define {name : String} {known : IteratorId → Prop} (home r : RealmId) (v : Value)
    {scope : Scope} (hscope : ∀ b ∈ scope, b.2.Unaware name known) {e : Expr}
    (he : ¬e.Mentions name) {s : Store} (hs : s.Holds (Value.Unaware name known)) :
    e.run r scope (s.modifyRealm home (·.define name v)) =
      mapStore (·.modifyRealm home (·.define name v)) (e.run r scope s) := by
  have hroom : (s.modifyRealm home (·.define name v)).callsLeft = s.callsLeft :=
    Store.callsLeft_of_counts (Store.counts_modifyRealm_of_same fun _ => rfl)
  have hdefine : (Store.modifyRealm · home (·.define name v)) = Store.mapEach fun r realm =>
      if home = r then realm.define name v else realm :=
    funext fun s => s.modifyRealm_eq_mapEach home _
  unfold Expr.run
  rw [hroom, hdefine, s.modifyRealm_eq_mapEach home]
  have hmirrored := (unseen_define home v).eval_of_fit stable_unaware (s.callsLeft + 1) r hscope
    (fit_unaware_iff.2 he) hs
  exact hmirrored.resolve_left nofun

/-! ## Lines -/

/-- A realm without the definition of a name. -/
def Realm.forget (realm : Realm) (name : String) : Realm :=
  { realm with globals := realm.globals.filter (·.1 != name) }

/-- A definition is forgotten with its name. -/
theorem Realm.forget_define (realm : Realm) (name : String) (v : Value) :
    (realm.define name v).forget name = realm.forget name := by
  simp [define, forget, List.filter_filter]

/-- It does not matter whether the name was defined before another. -/
theorem Realm.forget_define_define {name other : String} (hother : other ≠ name) (v w : Value)
    (realm : Realm) :
    ((realm.define name v).define other w).forget name = (realm.define other w).forget name := by
  simp [define, forget, List.filter_filter, hother, Bool.and_comm]

/-- A definition makes no difference to code that does not mention it. -/
theorem evaluate_define {name : String} {known : IteratorId → Prop} (r : RealmId) (v : Value)
    {e : Expr} (he : ¬e.Mentions name) {s : Store} (hs : s.Holds (Value.Unaware name known)) :
    evaluate r e (s.modifyRealm r (·.define name v)) =
      mapStore (·.modifyRealm r (·.define name v)) (evaluate r e s) := by
  have hrest : (s.modifyRealm r (·.define name v)).atRest r =
      (s.atRest r).modifyRealm r (·.define name v) := by
    simp [Store.atRest, Store.modifyRealm, List.modify_modify_eq]
    rfl
  rw [evaluate_eq, evaluate_eq, hrest]
  exact run_define r r v (by simp) he (hs.modifyRealm r hs.globals)

/-! ## Sessions -/

/-- A session without the definition of a name. -/
def Session.forget (session : Session) (name : String) : Session :=
  session.modify (·.forget name)

/-- A definition is forgotten with its name. -/
theorem Session.forget_define (s : Store) (name : String) (v : Value) :
    Session.forget ⟨s.modifyRealm realm (·.define name v)⟩ name = Session.forget ⟨s⟩ name := by
  simp [forget, modify, Store.modifyRealm, List.modify_modify_eq, Function.comp_def,
    Realm.forget_define]

theorem Session.forget_define_define {name other : String} (hother : other ≠ name) (v w : Value)
    (s : Store) :
    Session.forget ⟨(s.modifyRealm realm (·.define name v)).modifyRealm realm (·.define other w)⟩
      name = Session.forget ⟨s.modifyRealm realm (·.define other w)⟩ name := by
  simp [forget, modify, Store.modifyRealm, List.modify_modify_eq, Function.comp_def,
    Realm.forget_define_define hother]

/-- A definition that neither a line nor a function within reach mentions makes no difference to the
line: it comes to the same, and leaves the same iterators, definitions and all else besides that
definition. -/
theorem Session.evalLine_define {session : Session} {name line : String} (v : Value)
    (hline : ∀ parsed, parseLine line = .ok parsed → parsed.Avoids name)
    (hfunctions : ∀ id c, session.store.Reaches (.function id c) → ¬c.body.Mentions name) :
    let plain := session.evalLine line
    let shadowed := (session.modify (·.define name v)).evalLine line
    shadowed.1 = plain.1 ∧ shadowed.2.forget name = plain.2.forget name := by
  have hholds := Store.holds_unaware hfunctions
  have hunread : (session.modify (·.define name v)).forget name = session.forget name :=
    forget_define session.store name v
  unfold evalLine
  simp only [evalLine_eq]
  cases hparsed : parseLine line with
  | error e => exact ⟨rfl, hunread⟩
  | ok parsed =>
    have havoids := hline parsed hparsed
    cases parsed with
    | blank => exact ⟨rfl, hunread⟩
    | definition other e =>
      obtain ⟨hother, he⟩ := havoids
      have hsame : evaluate realm e (session.modify (·.define name v)).store = _ :=
        evaluate_define realm v he hholds
      dsimp only
      rw [hsame]
      cases evaluate realm e session.store with
      | ok w s => exact ⟨rfl, forget_define_define hother v w s⟩
      | error err s => exact ⟨rfl, forget_define s name v⟩
    | expr e =>
      have hsame : evaluate realm e (session.modify (·.define name v)).store = _ :=
        evaluate_define realm v havoids hholds
      dsimp only
      rw [hsame]
      cases evaluate realm e session.store with
      | ok w s => exact ⟨rfl, forget_define s name v⟩
      | error err s => exact ⟨rfl, forget_define s name v⟩

/-- A function that calls the builtin `max`, called where `min` is hidden. -/
theorem Session.evalLine_define_hidden :
    let atLeastTwo : Value := .function 0 ⟨⟨[⟨"x", none⟩], none, [], none⟩,
      .call (.var "max") [.positional (.var "x"), .positional (.literal (.int 2))], [none], [], [],
      realm⟩
    let session := (Session.new defaultMaxDepth).modify (·.define "f" atLeastTwo)
    let plain := session.evalLine "f(1)"
    let shadowed := (session.modify (·.define "min" .none)).evalLine "f(1)"
    (∀ parsed, parseLine "f(1)" = .ok parsed → parsed.Avoids "min") ∧
    (∀ id c, session.store.Reaches (.function id c) → ¬c.body.Mentions "min") ∧
    shadowed.1 = plain.1 ∧ shadowed.2.forget "min" = plain.2.forget "min" := by
  intro atLeastTwo session plain shadowed
  have hparsed : parseLine "f(1)" =
      .ok (.expr (.call (.var "f") [.positional (.literal (.int 1))])) := by
    with_unfolding_all rfl
  have hline : ∀ parsed, parseLine "f(1)" = .ok parsed → parsed.Avoids "min" := by
    intro parsed h
    obtain rfl := Except.ok.inj (hparsed.symm.trans h)
    simp [Line.Avoids, Argument.value]
  have hreached : ∀ v, session.store.Reaches v → v = atLeastTwo := by
    intro v hv
    induction hv with
    | definition hrealm hb =>
      obtain rfl := List.mem_singleton.1 hrealm
      obtain rfl := List.mem_singleton.1 hb
      rfl
    | part _ hw ih =>
      subst ih
      cases hw
    | item _ _ ih => exact Value.noConfusion ih
  have hfunctions : ∀ id c, session.store.Reaches (.function id c) → ¬c.body.Mentions "min" := by
    intro id c hc
    obtain ⟨-, rfl⟩ := Value.function.inj (hreached _ hc)
    simp [Argument.value]
  exact ⟨hline, hfunctions, evalLine_define .none hline hfunctions⟩

end ExprLang
