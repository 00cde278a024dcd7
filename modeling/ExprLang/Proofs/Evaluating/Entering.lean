import ExprLang.Evaluator
import ExprLang.Proofs.Running

/-!
# Calls in progress

What beginning and ending a call does to a store. A call polls for interrupts, is refused if its
realm has as many calls in progress as it allows, and counts as one more until it is over
(`Eval.enter_eq`, `Eval.within_eq`). Of all that an evaluation does, only this changes the calls in
progress, and afterwards they are what they were (`Eval.counts_left`).
-/

namespace ExprLang

variable {α : Type}

/-- The store that an evaluation leaves, with a value or an error. -/
def storeAfter : EStateM.Result RuntimeError Store α → Store
  | .ok _ s => s
  | .error _ s => s

/-- The result of an evaluation with the store that it leaves changed. -/
def mapStore (g : Store → Store) :
    EStateM.Result RuntimeError Store α → EStateM.Result RuntimeError Store α
  | .ok a s => .ok a (g s)
  | .error e s => .error e (g s)

@[simp]
theorem storeAfter_mapStore (g : Store → Store) (result : EStateM.Result RuntimeError Store α) :
    storeAfter (mapStore g result) = g (storeAfter result) := by
  cases result <;> rfl

/-! ## Realms -/

/-- What a change of realms does not touch is in every realm as it was. -/
theorem Store.realm_modifyRealm {γ : Type} {field : Realm → γ} {f : Realm → Realm} {s : Store}
    {r r' : RealmId} (h : ∀ realm, field (f realm) = field realm) :
    field ((s.modifyRealm r f).realm r') = field (s.realm r') := by
  unfold realm modifyRealm
  rw [List.getElem?_modify]
  cases s.realms[r']? with
  | none => split <;> rfl
  | some realm =>
    split
    · exact h realm
    · rfl

/-- What a change of a realm makes of a part of it, seen over all realms. -/
theorem Store.map_modifyRealm {γ : Type} {field : Realm → γ} {f : Realm → Realm} {g : γ → γ}
    (h : ∀ realm, field (f realm) = g (field realm)) (s : Store) (r : RealmId) :
    (s.modifyRealm r f).realms.map field = (s.realms.map field).modify r g := by
  unfold modifyRealm
  refine List.ext_getElem? fun i => ?_
  rw [List.getElem?_map, List.getElem?_modify, List.getElem?_modify, List.getElem?_map]
  cases s.realms[i]? with
  | none => rfl
  | some realm =>
    by_cases hi : r = i
    · simp [hi, h]
    · simp [hi]

/-- How many calls each realm allows, and how many are in progress. -/
def Store.counts (s : Store) : List (Nat × Nat) :=
  s.realms.map fun r => (r.maxDepth, r.depth)

/-- The definitions of each realm. -/
def Store.globals (s : Store) : List Scope :=
  s.realms.map (·.globals)

/-- The counts of a realm are its limit and its depth. -/
theorem Store.counts_realm (s : Store) (r : RealmId) :
    s.counts[r]?.getD (0, 0) = ((s.realm r).maxDepth, (s.realm r).depth) := by
  unfold counts realm
  rw [List.getElem?_map]
  cases s.realms[r]? <;> rfl

/-- Stores with the same counts agree on limits and depths. -/
theorem Store.realm_of_counts {s s' : Store} (h : s'.counts = s.counts) (r : RealmId) :
    (s'.realm r).maxDepth = (s.realm r).maxDepth ∧ (s'.realm r).depth = (s.realm r).depth := by
  rw [← Prod.mk.injEq, ← counts_realm, ← counts_realm, h]

/-- A change to the counts of one realm. -/
theorem Store.counts_modifyRealm {f : Realm → Realm} {g : Nat × Nat → Nat × Nat}
    (h : ∀ realm, ((f realm).maxDepth, (f realm).depth) = g (realm.maxDepth, realm.depth))
    (s : Store) (r : RealmId) : (s.modifyRealm r f).counts = s.counts.modify r g :=
  map_modifyRealm h s r

/-- A change to a realm that leaves its counts. -/
theorem Store.counts_modifyRealm_of_same {f : Realm → Realm} {s : Store} {r : RealmId}
    (h : ∀ realm, ((f realm).maxDepth, (f realm).depth) = (realm.maxDepth, realm.depth)) :
    (s.modifyRealm r f).counts = s.counts := by
  have hcounts : (s.modifyRealm r f).counts = s.counts.modify r id := counts_modifyRealm h s r
  rwa [List.modify_id] at hcounts

/-- A change to the globals of one realm. -/
theorem Store.globals_modifyRealm {f : Realm → Realm} {g : Scope → Scope}
    (h : ∀ realm, (f realm).globals = g realm.globals) (s : Store) (r : RealmId) :
    (s.modifyRealm r f).globals = s.globals.modify r g :=
  map_modifyRealm h s r

theorem Store.globals_modifyRealm_of_same {f : Realm → Realm} {s : Store} {r : RealmId}
    (h : ∀ realm, (f realm).globals = realm.globals) :
    (s.modifyRealm r f).globals = s.globals := by
  have hglobals : (s.modifyRealm r f).globals = s.globals.modify r id := globals_modifyRealm h s r
  rwa [List.modify_id] at hglobals

/-- A definition puts its name in front of the globals. -/
theorem Store.globals_define (s : Store) (r : RealmId) (name : String) (v : Value) :
    (s.modifyRealm r (·.define name v)).globals =
      s.globals.modify r fun scope => (name, v) :: scope.filter (·.1 != name) :=
  globals_modifyRealm (fun _ => rfl) s r

/-- The calls left to all realms, from what each allows and has in progress. -/
def roomOf (counts : List (Nat × Nat)) : Nat :=
  (counts.map fun c => c.1 - c.2).foldr (· + ·) 0

/-- The room for calls is told by the counts. -/
theorem Store.callsLeft_eq (s : Store) : s.callsLeft = roomOf s.counts := by
  unfold callsLeft roomOf counts
  rw [List.map_map]
  rfl

theorem Store.callsLeft_of_counts {s s' : Store} (h : s'.counts = s.counts) :
    s'.callsLeft = s.callsLeft := by
  rw [callsLeft_eq, callsLeft_eq, h]

/-! ## Interrupts -/

/-- The store with the flag of a realm down: no interrupt is asked for. -/
def Store.lower (s : Store) (r : RealmId) : Store :=
  s.modifyRealm r fun realm => { realm with interrupted := false }

/-- A poll fails if the realm is interrupted, and lowers the flag. -/
theorem Eval.poll_eq (r : RealmId) (s : Store) :
    Eval.poll r s =
      if (s.realm r).interrupted then .error .interrupted (s.lower r) else .ok () s := by
  unfold poll
  show (if (s.realm r).interrupted = true then _ else _ : Eval Unit) s = _
  split <;> rfl

theorem Store.counts_lower (s : Store) (r : RealmId) : (s.lower r).counts = s.counts :=
  counts_modifyRealm_of_same fun _ => rfl

/-! ## Beginning and ending a call -/

/-- The store inside of one call more of a realm. -/
def Store.entered (s : Store) (r : RealmId) : Store :=
  s.modifyRealm r fun realm => { realm with depth := realm.depth + 1 }

/-- A realm that has room for a call is one of the store. -/
theorem Store.realm_entered {s : Store} {r : RealmId}
    (hroom : ¬(s.realm r).maxDepth < (s.realm r).depth + 1) (w : RealmId) :
    (s.entered r).realm w =
      if r = w then { s.realm w with depth := (s.realm w).depth + 1 } else s.realm w := by
  unfold realm at hroom
  unfold realm entered modifyRealm
  rw [List.getElem?_modify]
  cases hw : s.realms[w]? with
  | none =>
    split
    · next hr =>
      subst hr
      simp [hw, Realm.empty] at hroom
    · rfl
  | some realm => split <;> rfl

/-- A call is interrupted, refused or counted. -/
theorem Eval.enter_eq (r : RealmId) (s : Store) : Eval.enter r s =
    if (s.realm r).interrupted then .error .interrupted (s.lower r)
    else if (s.realm r).maxDepth < (s.realm r).depth + 1 then .error .tooManyCalls s
    else .ok () (s.entered r) := by
  have hpoll := poll_eq r s
  unfold enter
  split
  · next hinterrupted =>
    rw [if_pos hinterrupted] at hpoll
    exact run_error hpoll
  · next hfree =>
    rw [if_neg hfree] at hpoll
    refine (run_ok hpoll).trans ?_
    show (if (s.realm r).maxDepth < (s.realm r).depth + 1 then _ else _ : Eval Unit) s = _
    split <;> rfl

/-- What comes after the beginning of a call. -/
theorem Eval.enter_bind (r : RealmId) (f : Unit → Eval α) (s : Store) : (Eval.enter r >>= f) s =
    if (s.realm r).interrupted then .error .interrupted (s.lower r)
    else if (s.realm r).maxDepth < (s.realm r).depth + 1 then .error .tooManyCalls s
    else f () (s.entered r) := by
  have henter := enter_eq r s
  split
  · next hinterrupted =>
    rw [if_pos hinterrupted] at henter
    exact run_error henter
  · next hfree =>
    rw [if_neg hfree] at henter
    split
    · next hfull =>
      rw [if_pos hfull] at henter
      exact run_error henter
    · next hroom =>
      rw [if_neg hroom] at henter
      exact run_ok henter

/-- What becomes of code in a call. -/
theorem Eval.within_eq (r : RealmId) (act : Eval α) (s : Store) : Eval.within r act s =
    if (s.realm r).interrupted then .error .interrupted (s.lower r)
    else if (s.realm r).maxDepth < (s.realm r).depth + 1 then .error .tooManyCalls s
    else mapStore (Eval.left r) (act (s.entered r)) := by
  refine (enter_bind r _ s).trans ?_
  unfold mapStore
  cases act (s.entered r) <;> rfl

/-- One call more of a realm. -/
def oneMore (c : Nat × Nat) : Nat × Nat :=
  (c.1, c.2 + 1)

/-- An entered call is one more. -/
theorem Store.counts_entered (s : Store) (r : RealmId) :
    (s.entered r).counts = s.counts.modify r oneMore :=
  counts_modifyRealm (fun _ => rfl) s r

/-- A call over, the calls in progress are those before it, if they were balanced inside of it. -/
theorem Eval.counts_left {r : RealmId} {s s' : Store} (h : s'.counts = (s.entered r).counts) :
    (Eval.left r s').counts = s.counts := by
  have hleft : (Eval.left r s').counts = s'.counts.modify r fun c => (c.1, c.2 - 1) :=
    Store.counts_modifyRealm (fun _ => rfl) s' r
  have hback : (fun c : Nat × Nat => (c.1, c.2 - 1)) ∘ oneMore = id := by
    funext c
    simp [oneMore]
  rw [h, Store.counts_entered, List.modify_modify_eq, hback, List.modify_id] at hleft
  exact hleft

end ExprLang
