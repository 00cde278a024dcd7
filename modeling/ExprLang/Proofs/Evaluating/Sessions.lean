import ExprLang.Proofs.Evaluating.Invariants
import ExprLang.Proofs.Evaluating.Lines

/-!
# What sessions keep

Lines make definitions out of values that evaluation made, so a session keeps every hereditary
property of values too: whatever is done to it, its store fits the property (`Session.fit_foldl`).
-/

namespace ExprLang

/-! ## Lines -/

section

variable {P : Value → Prop}

/-- An evaluation keeps what the parts decide, in the store and in its value. -/
theorem evaluate_kept (hP : Hereditary P) {r : RealmId} {e : Expr} {s : Store} (hs : s.Fit P)
    {result : EStateM.Result RuntimeError Store Value} (hrun : evaluate r e s = result) :
    (storeAfter result).Fit P ∧ ∀ v s', result = .ok v s' → P v := by
  have hrest : (s.atRest r).Holds P :=
    (Store.holds_iff hP.iterator).2 (hs.modifyRealm r hs.globals)
  have hkept : Kept P P result := hrun ▸ eval_kept hP.stable r (by simp) (hP.fit e) hrest
  exact ⟨(Store.holds_iff hP.iterator).1 hkept.store, hkept.value⟩

/-- Whether a line left a store that fits and, if it came to a value, one with the property. -/
def LineKept (P : Value → Prop) : EStateM.Result Failure Store Outcome → Prop
  | .ok outcome s => s.Fit P ∧ ∀ v, outcome = .value v → P v
  | .error _ s => s.Fit P

/-- A definition of a value that fits. -/
theorem Store.Fit.define {s : Store} (hs : s.Fit P) (r : RealmId) (name : String) {v : Value}
    (hv : P v) : (s.modifyRealm r (·.define name v)).Fit P :=
  hs.modifyRealm r fun realm hrealm => List.forall_mem_cons.2
    ⟨hv, fun b hb => hs.globals realm hrealm b ((List.mem_filter.1 hb).1)⟩

/-- A line keeps what the parts decide, in the store and in its value. -/
theorem evalLine_kept (hP : Hereditary P) (r : RealmId) (line : String) {s : Store}
    (hs : s.Fit P) : LineKept P (evalLine r line s) := by
  have hruns := lineRuns_evalLine r line s
  cases hline : evalLine r line s with
  | ok outcome s' =>
    rw [hline] at hruns
    cases hruns with
    | blank => exact ⟨hs, nofun⟩
    | @defined name e v s' _ hrun =>
      have hkept := evaluate_kept hP hs hrun
      exact ⟨hkept.1.define r name (hkept.2 v s' rfl), nofun⟩
    | @value e v s' _ hrun =>
      have hkept := evaluate_kept hP hs hrun
      exact ⟨hkept.1, fun w hw => Outcome.value.inj hw ▸ hkept.2 v s' rfl⟩
  | error e s' =>
    rw [hline] at hruns
    cases hruns with
    | unread => exact hs
    | failed hrun => exact (evaluate_kept hP hs hrun).1

theorem loadLines_kept (hP : Hereditary P) (r : RealmId) (lines : List LogicalLine) {s : Store}
    (hs : s.Fit P) : (loadLines r lines s).2.Fit P := by
  induction lines generalizing s with
  | nil => exact hs
  | cons line lines ih =>
    have hkept := evalLine_kept hP r (String.ofList line.text) hs
    unfold loadLines
    cases hrun : evalLine r (String.ofList line.text) s with
    | ok outcome s' =>
      rw [hrun] at hkept
      exact ih hkept.1
    | error e s' =>
      rw [hrun] at hkept
      exact hkept

end

/-! ## Sessions -/

/-- What may be done to a session. -/
inductive Session.Action where
  | line (text : String)
  | load (source : LineSource)
  | reset
  | setInterrupt (interrupted : Bool)

/-- The session after something was done to it. -/
def Session.after (session : Session) : Session.Action → Session
  | .line text => (session.evalLine text).2
  | .load source => (session.load source).2
  | .reset => session.reset
  | .setInterrupt interrupted => session.setInterrupt interrupted

theorem Session.evalLine_kept {P : Value → Prop} (hP : Hereditary P) (line : String)
    {session : Session} (hs : session.store.Fit P) : (session.evalLine line).2.store.Fit P ∧
      ∀ v, (session.evalLine line).1 = .ok (.value v) → P v := by
  have hkept := ExprLang.evalLine_kept hP Session.realm line hs
  unfold Session.evalLine
  cases hrun : ExprLang.evalLine Session.realm line session.store with
  | ok outcome s =>
    rw [hrun] at hkept
    exact ⟨hkept.1, fun v hv => hkept.2 v (Except.ok.inj hv)⟩
  | error e s =>
    rw [hrun] at hkept
    exact ⟨hkept, nofun⟩

theorem Session.fit_after {P : Value → Prop} (hP : Hereditary P) {session : Session}
    (hs : session.store.Fit P) (action : Session.Action) : (session.after action).store.Fit P := by
  cases action with
  | line text => exact (evalLine_kept hP text hs).1
  | load source => exact loadLines_kept hP Session.realm source.logicalLines hs
  | reset => exact hs.modifyRealm Session.realm nofun
  | setInterrupt interrupted => exact hs.modifyRealm Session.realm hs.globals

/-- Any number of steps of a session keep what the parts decide. -/
theorem Session.fit_foldl {P : Value → Prop} (hP : Hereditary P) (actions : List Session.Action)
    {session : Session} (hs : session.store.Fit P) :
    (actions.foldl Session.after session).store.Fit P := by
  induction actions generalizing session with
  | nil => exact hs
  | cons action actions ih => exact ih (fit_after hP hs action)

/-- A new session has no values. -/
theorem Session.fit_new (P : Value → Prop) (maxDepth : Nat) (addresses : Addresses) :
    (Session.new maxDepth addresses).store.Fit P := by
  refine ⟨fun realm hrealm => ?_, nofun⟩
  rw [List.mem_singleton.1 hrealm]
  nofun

end ExprLang
