import ExprLang.Proofs.Evaluating.Invariants

/-!
# What every run does to the store

A relation between the store before and after an evaluation that holds of each step, and of a call
if it holds of what runs inside of it, holds of every evaluation (`Moves.eval`). The proof is by
induction on the code that runs and on the calls inside of one another.
-/

namespace ExprLang

variable {α β : Type}

/-- Relations between stores that every step keeps to: `T` from before to after a value, and `E`
from before to after an error. A call is refused with an error of its own, or interrupted, or it
counts while it runs. -/
structure Moves (T : Store → Store → Prop) (E : Store → RuntimeError → Store → Prop) : Prop where
  refl : ∀ s, T s s
  trans : ∀ {s s' s''}, T s s' → T s' s'' → T s s''
  fail : ∀ {s s' e s''}, T s s' → E s' e s'' → E s e s''
  throw : ∀ {e} s, e ≠ .interrupted → E s e s
  step : ∀ {α} {x : Eval α} {Q}, Step (fun _ => True) x Q → ∀ s, T s (storeAfter (x s))
  obey : ∀ {s r}, (s.realm r).interrupted → E s .interrupted (s.lower r)
  left : ∀ {s r s'}, T (s.entered r) s' → T s (Eval.left r s')
  leftError : ∀ {s r e s'}, E (s.entered r) e s' → E s e (Eval.left r s')

/-- Whether an evaluation moves from a store as the relations say. -/
def Moved (T : Store → Store → Prop) (E : Store → RuntimeError → Store → Prop) (s : Store) :
    EStateM.Result RuntimeError Store α → Prop
  | .ok _ s' => T s s'
  | .error e s' => E s e s'

namespace Moves

variable {T : Store → Store → Prop} {E : Store → RuntimeError → Store → Prop} (hM : Moves T E)

include hM

/-- A poll moves the store by lowering the flag. -/
theorem poll (r : RealmId) (s : Store) : Moved T E s (Eval.poll r s) := by
  rw [Eval.poll_eq]
  split
  · next hinterrupted => exact hM.obey hinterrupted
  · exact hM.refl s

theorem bind {x : Eval α} {f : α → Eval β} {s : Store} (hx : Moved T E s (x s))
    (hf : ∀ a s', x s = .ok a s' → Moved T E s' (f a s')) : Moved T E s ((x >>= f) s) := by
  cases hrun : x s with
  | ok a s' =>
    rw [hrun] at hx
    rw [run_ok hrun]
    have hrest := hf a s' hrun
    cases hresult : f a s' with
    | ok b s'' => exact hM.trans hx (by rwa [hresult] at hrest)
    | error e s'' => exact hM.fail hx (by rwa [hresult] at hrest)
  | error e s' =>
    rw [hrun] at hx
    rwa [run_error hrun]

/-- Code in a call, from entering to leaving. -/
theorem within {x : Eval α} (r : RealmId) {s : Store}
    (hx : Moved T E (s.entered r) (x (s.entered r))) : Moved T E s (Eval.within r x s) := by
  rw [Eval.within_eq]
  split
  · next hinterrupted => exact hM.obey hinterrupted
  · split
    · exact hM.throw s nofun
    · cases hrun : x (s.entered r) with
      | ok a s' => exact hM.left (by rwa [hrun] at hx)
      | error e s' => exact hM.leftError (by rwa [hrun] at hx)

/-- By induction on the code: it moves the store as the calls in it do. -/
theorem code {act : RealmCaller → Eval α} {Q : α → Prop} (h : Code (fun _ => True) act Q)
    {call : RealmCaller} (hcall : ∀ r f args s, Moved T E s (call r f args s)) (s : Store) :
    Moved T E s (act call s) := by
  induction h generalizing s with
  | pure _ => exact hM.refl s
  | throw he => exact hM.throw s he.ne_interrupted
  | panic _ => exact hM.throw s nofun
  | bind hx _ ihx ihf => exact hM.bind (ihx s) fun a s' hrun => ihf a (hx.value hrun) s'
  | weaken _ _ ih => exact ih s
  | ask r _ _ => exact hcall r _ _ s
  | poll r => exact hM.poll r s
  | definition? r _ => exact hM.refl s
  | step h =>
    have hstep := hM.step h s
    cases h <;> exact hstep

/-- By induction on the fuel: calls of any depth move the store so. -/
theorem callValue (n : Nat) (r : RealmId) (f : Value) (args : Arguments) (s : Store) :
    Moved T E s (callValue n r f args s) := by
  induction n generalizing r f args s with
  | zero => exact hM.throw s nofun
  | succ n ih =>
    have hbody := hM.code (Code.callBody .any r (f := f) trivial args.fit_any) ih
    show Moved T E s (callWith (ExprLang.callValue n) r f args s)
    rw [callWith_eq]
    cases homeOf? r f with
    | some home => exact hM.within home (hbody _)
    | none => exact hbody s

theorem eval (n : Nat) (r : RealmId) (scope : Scope) (e : Expr) (s : Store) :
    Moved T E s (eval (ExprLang.callValue n) r scope e s) :=
  hM.code (Code.eval .any r (fun _ _ => trivial) e.fit_any) (hM.callValue n) s

end Moves

/-- A relation that holds of errors as of values. -/
theorem moved_iff {T : Store → Store → Prop} {s : Store}
    {result : EStateM.Result RuntimeError Store α} :
    Moved T (fun s _ s' => T s s') s result ↔ T s (storeAfter result) := by
  cases result <;> rfl

/-- Evaluation keeps the calls in progress as they are. -/
theorem moves_counts :
    Moves (fun s s' => s'.counts = s.counts) (fun s _ s' => s'.counts = s.counts) where
  refl _ := rfl
  trans h h' := h'.trans h
  fail h h' := h'.trans h
  throw _ _ := rfl
  step h _ := by cases h <;> rfl
  obey _ := Store.counts_lower _ _
  left h := Eval.counts_left h
  leftError h := Eval.counts_left h

/-- Evaluation gives back the counts of calls. -/
theorem Code.counts {act : RealmCaller → Eval α} {Q : α → Prop} (h : Code (fun _ => True) act Q)
    (n : Nat) (s : Store) : (storeAfter (act (callValue n) s)).counts = s.counts :=
  moved_iff.1 (moves_counts.code h (moves_counts.callValue n) s)

end ExprLang
