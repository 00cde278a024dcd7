import ExprLang.Proofs.Evaluating.Runs

/-!
# Two runs side by side

Evaluation sees little of the realms: definitions, flags, and whether a call is refused. So a run
from a store with its realms changed goes the same way as the run from the store itself, as long as
these look the same, unless an error escapes that tells the two apart (`Mirrored`). It is enough to
compare polls and calls (`Mirror`), or the realms one by one (`Unseen`). Of the definitions only
those have to look the same that are ever looked up: a property of values tells which names are.

The calls of the second run may be counted in a way of its own (`callThrough`).
-/

namespace ExprLang

variable {α β : Type}

/-! ## Calls and stores -/

/-- A value called with room for fewer than `n` calls inside of one another, where `within` runs
what is inside of a call. -/
def callThrough (within : RealmId → Eval Value → Eval Value) : (n : Nat) → RealmCaller
  | 0 => fun _ _ _ => throw .tooManyCalls
  | n + 1 => fun r f args =>
    match homeOf? r f with
    | some home => within home (callBody (callThrough within n) r f args)
    | none => callBody (callThrough within n) r f args

/-- The way of entering calls that calls have. -/
theorem callThrough_within (n : Nat) : callThrough Eval.within n = callValue n := by
  induction n with
  | zero => rfl
  | succ n ih =>
    funext r f args
    show _ = callWith (callValue n) r f args
    rw [callWith_eq, ← ih]
    rfl

/-- Whether a second result is the first with the store changed, unless the first is an error that
escapes. -/
def Mirrored (g : Store → Store) (escapes : RuntimeError → Store → Prop)
    (first second : EStateM.Result RuntimeError Store α) : Prop :=
  (∃ e s, first = .error e s ∧ escapes e s) ∨ second = mapStore g first

/-- The store with all realms changed. -/
def Store.mapRealms (g : List Realm → List Realm) (s : Store) : Store :=
  { s with realms := g s.realms }

theorem mapStore_mapRealms_id (result : EStateM.Result RuntimeError Store α) :
    mapStore (.mapRealms id) result = result := by
  cases result <;> rfl

/-- Whether code among values with a property `P` that begins in a store of a kind ends in one, with
a value as the code says. -/
def Lasting (P : Value → Prop) (kind : Store → Prop) : Prop :=
  ∀ {α : Type} {act : RealmCaller → Eval α} {Q : α → Prop}, Code P act Q → ∀ n {s}, kind s →
    kind (storeAfter (act (callValue n) s)) ∧ ∀ a s', act (callValue n) s = .ok a s' → Q a

/-- What depends on the counts of calls alone lasts. -/
theorem lasting_of_counts {kind : Store → Prop}
    (hkept : ∀ {s s'}, s'.counts = s.counts → kind s → kind s') : Lasting (fun _ => True) kind :=
  fun h n s hs => ⟨hkept (h.counts n s) hs, fun _ _ hrun => h.value hrun⟩

theorem lasting_holds {P : Value → Prop} (hP : Stable P) : Lasting P (Store.Holds P) := by
  intro α act Q h n s hs
  have hkept := h.kept (callValue_keeps hP n) hs
  exact ⟨hkept.store, hkept.value⟩

/-- A change of realms that is not seen by polls, calls and the names that code among values with a
property `P` looks up, in stores of a kind, unless an error escapes. In the second run `within` runs
what is inside of a call. -/
structure Mirror (P : Value → Prop) (g : List Realm → List Realm)
    (escapes : RuntimeError → Store → Prop) (kind : Store → Prop)
    (within : RealmId → Eval Value → Eval Value) : Prop where
  kept : Lasting P kind
  globals : ∀ s r {name}, (Expr.var name).Fit P →
    ((Store.mapRealms g s).realm r).globals.lookup name = (s.realm r).globals.lookup name
  poll : ∀ s r, Mirrored (.mapRealms g) escapes (Eval.poll r s) (Eval.poll r (s.mapRealms g))
  within : ∀ {s r} {x y : Eval Value}, kind s →
    (∀ s, (storeAfter (x s)).counts = s.counts) →
    (∀ s, kind s → Mirrored (.mapRealms g) escapes (x s) (y (s.mapRealms g))) →
    Mirrored (.mapRealms g) escapes (Eval.within r x s) (within r y (s.mapRealms g))

/-- A step does not see what realms are. -/
theorem Step.mapRealms {P : Value → Prop} {x : Eval α} {Q : α → Prop} (h : Step P x Q)
    (g : List Realm → List Realm) (s : Store) :
    x (s.mapRealms g) = mapStore (.mapRealms g) (x s) := by
  cases h <;> rfl

namespace Mirror

variable {P : Value → Prop} {g : List Realm → List Realm} {escapes : RuntimeError → Store → Prop}
  {kind : Store → Prop} {within : RealmId → Eval Value → Eval Value}
  (hM : Mirror P g escapes kind within)

omit hM in
/-- Two runs are mirrored if both parts are. -/
theorem bind {x x' : Eval α} {f f' : α → Eval β} {s : Store}
    (hx : Mirrored (.mapRealms g) escapes (x s) (x' (s.mapRealms g)))
    (hf : ∀ a s', x s = .ok a s' →
      Mirrored (.mapRealms g) escapes (f a s') (f' a (s'.mapRealms g))) :
    Mirrored (.mapRealms g) escapes ((x >>= f) s) ((x' >>= f') (s.mapRealms g)) := by
  obtain ⟨e, s', hrun, hescapes⟩ | hsame := hx
  · exact .inl ⟨e, s', run_error hrun, hescapes⟩
  · cases hrun : x s with
    | ok a s' =>
      rw [hrun] at hsame
      rw [run_ok hrun, run_ok hsame]
      exact hf a s' hrun
    | error e s' =>
      rw [hrun] at hsame
      rw [run_error hrun, run_error hsame]
      exact .inr rfl

include hM

/-- Code is mirrored if the calls in it are. -/
theorem code {act : RealmCaller → Eval α} {Q : α → Prop} (h : Code P act Q) {n : Nat}
    {call : RealmCaller} (hcall : ∀ r f args s, P f → args.Fit P → kind s →
      Mirrored (.mapRealms g) escapes (ExprLang.callValue n r f args s)
        (call r f args (s.mapRealms g)))
    {s : Store} (hs : kind s) :
    Mirrored (.mapRealms g) escapes (act (ExprLang.callValue n) s) (act call (s.mapRealms g)) := by
  induction h generalizing s with
  | pure _ | throw _ | panic _ => exact .inr rfl
  | bind hx _ ihx ihf =>
    obtain ⟨hafter, hvalue⟩ := hM.kept hx n hs
    refine bind (ihx hs) fun a s' hrun => ihf a (hvalue a s' hrun) ?_
    rwa [hrun] at hafter
  | weaken _ _ ih => exact ih hs
  | ask r hf hargs => exact hcall r _ _ s hf hargs hs
  | poll r => exact hM.poll s r
  | definition? r hname =>
    refine .inr ?_
    show EStateM.Result.ok _ _ = EStateM.Result.ok _ _
    rw [hM.globals s r hname]
  | step h => exact .inr (h.mapRealms g s)

/-- By induction on the fuel: a call is mirrored if all calls in its code are. -/
theorem callValue (hP : Stable P) (n : Nat) (r : RealmId) {f : Value} (hf : P f)
    {args : Arguments} (hargs : args.Fit P) {s : Store} (hs : kind s) :
    Mirrored (.mapRealms g) escapes (ExprLang.callValue n r f args s)
      (callThrough within n r f args (s.mapRealms g)) := by
  induction n generalizing r f args s with
  | zero => exact .inr rfl
  | succ n ih =>
    have hcounts := (Code.callBody .any r (f := f) trivial args.fit_any).counts n
    have hbody : ∀ s, kind s → Mirrored (.mapRealms g) escapes
        (callBody (ExprLang.callValue n) r f args s)
        (callBody (callThrough within n) r f args (s.mapRealms g)) := fun s =>
      hM.code (Code.callBody hP r hf hargs) fun r f args s hf hargs => ih r hf hargs
    show Mirrored _ _ (callWith (ExprLang.callValue n) r f args s) _
    rw [callWith_eq]
    unfold callThrough
    cases homeOf? r f with
    | some home => exact hM.within hs hcounts hbody
    | none => exact hbody s hs

/-- An expression is mirrored, as its code is. -/
theorem eval (hP : Stable P) (n : Nat) (r : RealmId) {scope : Scope} (hscope : ∀ b ∈ scope, P b.2)
    {e : Expr} (he : e.Fit P) {s : Store} (hs : kind s) :
    Mirrored (.mapRealms g) escapes (eval (ExprLang.callValue n) r scope e s)
      (eval (callThrough within n) r scope e (s.mapRealms g)) :=
  hM.code (Code.eval hP r hscope he)
    (fun r _ _ _ hf hargs => hM.callValue hP n r hf hargs) hs

end Mirror

/-! ## Realms changed one by one -/

/-- The store with each realm changed by itself. -/
def Store.mapEach (g : RealmId → Realm → Realm) : Store → Store :=
  .mapRealms (List.mapIdx g)

/-- A realm is changed if it is there. -/
theorem Store.realm_mapEach (g : RealmId → Realm → Realm) (s : Store) (r : RealmId) :
    (s.mapEach g).realm r = g r (s.realm r) ∨
      s.realm r = .empty 0 ∧ (s.mapEach g).realm r = .empty 0 := by
  unfold realm mapEach mapRealms
  rw [List.getElem?_mapIdx]
  cases s.realms[r]? with
  | none => exact .inr ⟨rfl, rfl⟩
  | some realm => exact .inl rfl

/-- To change one realm is to change each by whether it is the one. -/
theorem Store.modifyRealm_eq_mapEach (s : Store) (home : RealmId) (f : Realm → Realm) :
    s.modifyRealm home f = s.mapEach fun r realm => if home = r then f realm else realm := by
  refine congrArg (fun realms => ({ s with realms := realms } : Store))
    (List.ext_getElem? fun i => ?_)
  rw [List.getElem?_modify, List.getElem?_mapIdx]
  cases s.realms[i]? with
  | none => rfl
  | some realm => by_cases hi : home = i <;> simp [hi]

theorem Store.mapEach_modifyRealm {g : RealmId → Realm → Realm} {f : Realm → Realm}
    (h : ∀ r realm, g r (f realm) = f (g r realm)) (s : Store) (r : RealmId) :
    (s.modifyRealm r f).mapEach g = (s.mapEach g).modifyRealm r f := by
  have hrealms : (s.realms.modify r f).mapIdx g = (s.realms.mapIdx g).modify r f := by
    refine List.ext_getElem? fun i => ?_
    rw [List.getElem?_mapIdx, List.getElem?_modify, List.getElem?_modify, List.getElem?_mapIdx]
    cases s.realms[i]? with
    | none => rfl
    | some realm =>
      by_cases hi : r = i
      · simp [hi, h]
      · simp [hi]
  exact congrArg (fun realms => ({ s with realms := realms } : Store)) hrealms

/-- A change of each realm that calls do not see in stores of a kind, nor code among values with a
property `P`, unless an error escapes: if an interrupt is asked for in one store, it is in the
other, and likewise if a call is refused. -/
structure Unseen (P : Value → Prop) (g : RealmId → Realm → Realm)
    (escapes : RuntimeError → Store → Prop) (kind : Store → Prop) : Prop where
  kept : Lasting P kind
  after : ∀ {e s r}, escapes e s → escapes e (Eval.left r s)
  globals : ∀ r realm {name}, (Expr.var name).Fit P →
    (g r realm).globals.lookup name = realm.globals.lookup name
  flag : ∀ r realm,
    g r { realm with interrupted := false } = { g r realm with interrupted := false }
  depth : ∀ r realm d, g r { realm with depth := d } = { g r realm with depth := d }
  heeded : ∀ {s : Store} {r}, (s.realm r).interrupted →
    escapes .interrupted (s.lower r) ∨ (g r (s.realm r)).interrupted
  unheeded : ∀ {r realm}, ¬realm.interrupted → ¬(g r realm).interrupted
  refused : ∀ {s : Store} {r}, (s.realm r).maxDepth < (s.realm r).depth + 1 →
    escapes .tooManyCalls s ∨ (g r (s.realm r)).maxDepth < (g r (s.realm r)).depth + 1
  admitted : ∀ {s : Store} {r}, kind s → ¬(s.realm r).maxDepth < (s.realm r).depth + 1 →
    ¬(g r (s.realm r)).maxDepth < (g r (s.realm r)).depth + 1 ∧ kind (s.entered r)

namespace Unseen

variable {P : Value → Prop} {g : RealmId → Realm → Realm} {escapes : RuntimeError → Store → Prop}
  {kind : Store → Prop} (hg : Unseen P g escapes kind)

include hg

/-- The variables that code may name are the same in the mirror. -/
theorem globals_mapEach (s : Store) (r : RealmId) {name : String} (hname : (Expr.var name).Fit P) :
    ((s.mapEach g).realm r).globals.lookup name = (s.realm r).globals.lookup name := by
  obtain h | ⟨h, h'⟩ := s.realm_mapEach g r
  · rw [h, hg.globals r _ hname]
  · rw [h, h']

theorem lower_mapEach (s : Store) (r : RealmId) : (s.lower r).mapEach g = (s.mapEach g).lower r :=
  Store.mapEach_modifyRealm hg.flag s r

theorem depth_eq (r : RealmId) (realm : Realm) : (g r realm).depth = realm.depth := by
  rw [show g r realm = { g r realm with depth := realm.depth } from hg.depth r realm realm.depth]

/-- Entering a call is the same in the mirror. -/
theorem entered_mapEach (s : Store) (r : RealmId) :
    (s.entered r).mapEach g = (s.mapEach g).entered r :=
  Store.mapEach_modifyRealm (fun r realm => by rw [hg.depth, hg.depth_eq]) s r

/-- Leaving a call is the same in the mirror. -/
theorem left_mapEach (s : Store) (r : RealmId) :
    (Eval.left r s).mapEach g = Eval.left r (s.mapEach g) :=
  Store.mapEach_modifyRealm (fun r realm => by rw [hg.depth, hg.depth_eq]) s r

/-- Where an interrupt is asked for, it is so in both runs, whatever the second would do else. -/
theorem obeyed {s : Store} {r : RealmId} (hinterrupted : (s.realm r).interrupted)
    (other : EStateM.Result RuntimeError Store α) :
    Mirrored (.mapEach g) escapes (.error .interrupted (s.lower r))
      (if ((s.mapEach g).realm r).interrupted then .error .interrupted ((s.mapEach g).lower r)
        else other) := by
  have hsame : escapes .interrupted (s.lower r) ∨ ((s.mapEach g).realm r).interrupted := by
    obtain h | ⟨h, -⟩ := s.realm_mapEach g r
    · rw [h]
      exact hg.heeded hinterrupted
    · rw [h] at hinterrupted
      cases hinterrupted
  obtain hescapes | hsame := hsame
  · exact .inl ⟨_, _, rfl, hescapes⟩
  · rw [if_pos hsame, ← hg.lower_mapEach]
    exact .inr rfl

/-- A realm that is not interrupted is not in the mirror. -/
theorem not_interrupted {s : Store} {r : RealmId} (hfree : ¬(s.realm r).interrupted) :
    ¬((s.mapEach g).realm r).interrupted := by
  obtain h | ⟨-, h⟩ := s.realm_mapEach g r
  · rw [h]
    exact hg.unheeded hfree
  · rw [h]
    nofun

/-- A poll comes out alike, unless an interrupt escapes. -/
theorem poll (s : Store) (r : RealmId) :
    Mirrored (.mapEach g) escapes (Eval.poll r s) (Eval.poll r (s.mapEach g)) := by
  rw [Eval.poll_eq, Eval.poll_eq]
  split
  · next hinterrupted => exact hg.obeyed hinterrupted _
  · next hfree =>
    rw [if_neg (hg.not_interrupted hfree)]
    exact .inr rfl

/-- Where a call is refused, it is so in both runs, whatever the second would do else. -/
theorem refused_mapEach {s : Store} {r : RealmId}
    (hfull : (s.realm r).maxDepth < (s.realm r).depth + 1)
    (other : EStateM.Result RuntimeError Store α) :
    Mirrored (.mapEach g) escapes (.error .tooManyCalls s)
      (if ((s.mapEach g).realm r).maxDepth < ((s.mapEach g).realm r).depth + 1 then
        .error .tooManyCalls (s.mapEach g)
        else other) := by
  have hsame : escapes .tooManyCalls s ∨
      ((s.mapEach g).realm r).maxDepth < ((s.mapEach g).realm r).depth + 1 := by
    obtain h | ⟨-, h⟩ := s.realm_mapEach g r
    · rw [h]
      exact hg.refused hfull
    · rw [h]
      exact .inr (Nat.succ_pos _)
  obtain hescapes | hsame := hsame
  · exact .inl ⟨_, _, rfl, hescapes⟩
  · rw [if_pos hsame]
    exact .inr rfl

/-- A call that is admitted is admitted in the mirror. -/
theorem admitted_mapEach {s : Store} {r : RealmId} (hs : kind s)
    (hroom : ¬(s.realm r).maxDepth < (s.realm r).depth + 1) :
    ¬((s.mapEach g).realm r).maxDepth < ((s.mapEach g).realm r).depth + 1 := by
  obtain h | ⟨h, -⟩ := s.realm_mapEach g r
  · rw [h]
    exact (hg.admitted hs hroom).1
  · rw [h] at hroom
    exact absurd (Nat.succ_pos 0) hroom

/-- The code of a call is mirrored in the counting around it. -/
theorem within {s : Store} {r : RealmId} {x y : Eval α} (hs : kind s)
    (hsame : ∀ s, kind s → Mirrored (.mapEach g) escapes (x s) (y (s.mapEach g))) :
    Mirrored (.mapEach g) escapes (Eval.within r x s) (Eval.within r y (s.mapEach g)) := by
  rw [Eval.within_eq, Eval.within_eq]
  split
  · next hinterrupted => exact hg.obeyed hinterrupted _
  · next hfree =>
    rw [if_neg (hg.not_interrupted hfree)]
    split
    · next hfull => exact hg.refused_mapEach hfull _
    · next hroom =>
      rw [if_neg (hg.admitted_mapEach hs hroom), ← hg.entered_mapEach]
      obtain ⟨e, s', hrun, hescapes⟩ | hrun := hsame _ (hg.admitted hs hroom).2
      · rw [hrun]
        exact .inl ⟨e, _, rfl, hg.after hescapes⟩
      · rw [hrun]
        cases x (s.entered r) with
        | ok a s' => exact .inr (congrArg _ (hg.left_mapEach s' r).symm)
        | error e s' => exact .inr (congrArg _ (hg.left_mapEach s' r).symm)

theorem mirror : Mirror P (List.mapIdx g) escapes kind Eval.within where
  kept := hg.kept
  globals := hg.globals_mapEach
  poll := hg.poll
  within hs _ hsame := hg.within hs hsame

/-- An evaluation among values with the property that does not escape does the same in the store
with its realms changed. -/
theorem eval_of_fit (hP : Stable P) (n : Nat) (r : RealmId) {scope : Scope}
    (hscope : ∀ b ∈ scope, P b.2) {e : Expr} (he : e.Fit P) {s : Store} (hs : kind s) :
    Mirrored (.mapEach g) escapes (ExprLang.eval (callValue n) r scope e s)
      (ExprLang.eval (callValue n) r scope e (s.mapEach g)) := by
  have hmirrored := hg.mirror.eval hP n r hscope he hs
  rwa [callThrough_within] at hmirrored

omit hg in
/-- An evaluation that does not escape does the same in the store with its realms changed. -/
theorem eval (hg : Unseen (fun _ => True) g escapes kind) (n : Nat) (r : RealmId) (scope : Scope)
    (e : Expr) {s : Store} (hs : kind s) :
    Mirrored (.mapEach g) escapes (ExprLang.eval (callValue n) r scope e s)
      (ExprLang.eval (callValue n) r scope e (s.mapEach g)) :=
  hg.eval_of_fit .any n r (fun _ _ => trivial) e.fit_any hs

end Unseen

end ExprLang
