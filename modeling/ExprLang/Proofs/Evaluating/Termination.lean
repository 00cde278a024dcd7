import ExprLang.Proofs.Evaluating.Calls
import Mathlib.Logic.ExistsUnique

/-!
# Evaluation ends

Calls may call any value, so the recursion of evaluation is not bounded by an expression. It is
bounded by the calls left to the realms: whatever is asked for inside of a call is asked for with
fewer calls left (`asks_callWith`), and between calls evaluation follows the expression
(`Finitary.eval`).

`Ends` is the tree of the calls inside of a call. Every call has one (`ends_callValue`), so an
expression comes to an end in every store (`eval_settled`), and the equation that `callWith` is of
itself has one solution only (`existsUnique_caller`).
-/

namespace ExprLang

/-- Evaluating an expression asks for finitely many calls. -/
theorem Finitary.eval (r : RealmId) (scope : Scope) (e : Expr) :
    Finitary fun call => eval call r scope e :=
  (Code.eval .any r (fun _ _ => trivial) e.fit_any).finitary

/-- A call begins by entering a realm, and asks for finitely many calls inside of that. -/
theorem asks_callWith {call : RealmCaller} (hcall : call.Balanced) (r : RealmId) (f : Value)
    (args : Arguments) (s : Store) :
    ∃ home, Asks (fun call => callWith call r f args) call s (Enters home s) := by
  have hbody : Finitary fun call => callBody call r f args :=
    (Code.callBody .any r trivial args.fit_any).finitary
  simp only [callWith_eq]
  cases hhome : homeOf? r f with
  | some home => exact ⟨home, hbody.within hcall home s⟩
  | none =>
    obtain ⟨e, he⟩ := callBody_of_homeOf?_eq_none hhome
    simp only [he]
    exact ⟨r, rfl, [], by simp, fun _ _ => rfl⟩

/-- A call keeps the calls in progress as they are. -/
theorem callValue_balanced (n : Nat) : (callValue n).Balanced := by
  induction n with
  | zero => exact fun _ => rfl
  | succ n ih =>
    intro q
    obtain ⟨home, hbalanced, -⟩ := asks_callWith ih q.realm q.callee q.args q.store
    exact hbalanced

/-! ## Termination -/

/-- A call ends with an answer, and inside of it no more calls of each realm are begun inside of one
another than it is allowed. The call enters a realm, and then asks for finitely many calls, each of
which ends; their answers settle its own. -/
inductive Ends : (RealmId → Nat) → Query → Answer → Prop
  | call {allowance : RealmId → Nat} {q : Query} {a : Answer} (home : RealmId)
    (asked : List (Query × Answer)) :
    (∀ p ∈ asked, Enters home q.store p.1.store) → (∀ p ∈ asked, 0 < allowance home) →
    (∀ p ∈ asked, Ends (spend allowance home) p.1 p.2) →
    Determined (fun call => callWith call q.realm q.callee q.args) q.store asked a →
    Ends allowance q a

/-- A call with enough room ends. The calls left get fewer from a call to those inside of it. -/
theorem ends_callValue {n : Nat} {q : Query} (h : q.store.callsLeft < n) :
    Ends q.store.allowance q ((callValue n).answer q) := by
  induction n generalizing q with
  | zero => omega
  | succ n ih =>
    obtain ⟨home, -, asked, hstores, hsettled⟩ :=
      asks_callWith (callValue_balanced n) q.realm q.callee q.args q.store
    refine .call home (asked.map fun q' => (q', (callValue n).answer q')) ?_ ?_ ?_ hsettled
    · simpa using hstores
    · simpa using fun q' hq' => (hstores q' hq').room
    · simp only [List.forall_mem_map]
      intro q' hq'
      have hless := (hstores q' hq').callsLeft_lt
      rw [← (hstores q' hq').allowance]
      exact ih (by omega)

/-- Room beyond the calls left changes nothing: no call is ever refused for want of it. -/
theorem answer_callValue {n m : Nat} {q : Query} (hn : q.store.callsLeft < n)
    (hm : q.store.callsLeft < m) : (callValue n).answer q = (callValue m).answer q := by
  induction n generalizing m q with
  | zero => omega
  | succ n ih =>
    obtain ⟨m, rfl⟩ : ∃ k, m = k + 1 := ⟨m - 1, by omega⟩
    obtain ⟨home, -, asked, hstores, hsettled⟩ :=
      asks_callWith (callValue_balanced n) q.realm q.callee q.args q.store
    have hanswers : ∀ p ∈ asked.map fun q' => (q', (callValue n).answer q'),
        (callValue m).answer p.1 = p.2 := by
      simp only [List.forall_mem_map]
      intro q' hq'
      have hless := (hstores q' hq').callsLeft_lt
      exact (ih (by omega) (by omega)).symm
    exact (hsettled (callValue m) hanswers).symm

/-- A caller that runs calls the way `callWith` does gives a call that ends its answer. -/
theorem Ends.answer_eq {call : RealmCaller}
    (hcall : ∀ r f args, call r f args = callWith call r f args) {allowance : RealmId → Nat}
    {q : Query} {a : Answer} (h : Ends allowance q a) : call.answer q = a := by
  induction h with
  | call home asked _ _ _ hsettled ih =>
    unfold RealmCaller.answer
    rw [hcall]
    exact hsettled call ih

/-- Exactly one caller runs calls the way `callWith` does. -/
theorem existsUnique_caller :
    ∃! call : RealmCaller, ∀ r f args, call r f args = callWith call r f args := by
  refine ⟨fun r f args s => callValue (s.callsLeft + 1) r f args s, ?_, ?_⟩
  · intro r f args
    funext s
    obtain ⟨home, -, asked, hstores, hsettled⟩ :=
      asks_callWith (callValue_balanced s.callsLeft) r f args s
    refine (hsettled _ ?_).symm
    simp only [List.forall_mem_map]
    intro q hq
    exact answer_callValue (Nat.lt_succ_self _) (hstores q hq).callsLeft_lt
  · intro call hcall
    funext r f args s
    exact Ends.answer_eq hcall (ends_callValue (q := ⟨r, f, args, s⟩) (Nat.lt_succ_self _))

end ExprLang
