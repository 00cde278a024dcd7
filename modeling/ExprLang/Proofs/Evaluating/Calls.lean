import ExprLang.Proofs.Evaluating.Invariants

/-!
# The calls that an evaluation asks for

Code that calls values is a function of the caller that it is handed. `Finitary act` says that such
code looks at its caller finitely often: its result is determined by the answers to a finite list
of calls. Moreover each of these calls is made with the calls in progress with which the code began,
and they are in progress again when it ends, in a value or in an error. All code is so
(`Code.finitary`).

Only `Eval.within` changes the calls in progress: the calls inside of it are made with one more in
progress, of a realm that allowed it (`Finitary.within`).
-/

namespace ExprLang

variable {α β : Type}

/-! ## Queries -/

/-- A call that is asked for: from which realm, of which value, with which arguments and in which
store. -/
structure Query where
  realm : RealmId
  callee : Value
  args : Arguments
  store : Store

/-- What a call came to. -/
abbrev Answer := EStateM.Result RuntimeError Store Value

/-- What a caller makes of a call. -/
def RealmCaller.answer (call : RealmCaller) (q : Query) : Answer :=
  call q.realm q.callee q.args q.store

/-- A caller after which the same calls are in progress as before. -/
def RealmCaller.Balanced (call : RealmCaller) : Prop :=
  ∀ q, (storeAfter (call.answer q)).counts = q.store.counts

/-- Whether the answers to some calls settle the result of an evaluation. -/
def Determined (act : RealmCaller → Eval α) (s : Store) (asked : List (Query × Answer))
    (result : EStateM.Result RuntimeError Store α) : Prop :=
  ∀ call : RealmCaller, (∀ p ∈ asked, call.answer p.1 = p.2) → act call s = result

/-- Whether an evaluation leaves the calls in progress as they were, and finitely many calls settle
its result, all of them asked in stores of a kind. -/
structure Asks (act : RealmCaller → Eval α) (call : RealmCaller) (s : Store)
    (kind : Store → Prop) : Prop where
  balanced : (storeAfter (act call s)).counts = s.counts
  settled : ∃ asked : List Query, (∀ q ∈ asked, kind q.store) ∧
    Determined act s (asked.map fun q => (q, call.answer q)) (act call s)

/-- Whether code asks for finitely many calls, whatever it is handed, and all with the calls in
progress with which it begins. -/
def Finitary (act : RealmCaller → Eval α) : Prop :=
  ∀ call : RealmCaller, call.Balanced → ∀ s, Asks act call s fun s' => s'.counts = s.counts

namespace Finitary

/-- Code that asks for nothing. -/
theorem of_counts {x : Eval α} (h : ∀ s, (storeAfter (x s)).counts = s.counts) :
    Finitary fun _ => x :=
  fun _ _ s => ⟨h s, [], by simp, fun _ _ => rfl⟩

/-- A call itself. -/
theorem ask (r : RealmId) (f : Value) (args : Arguments) : Finitary fun call => call r f args := by
  intro call hcall s
  refine ⟨hcall ⟨r, f, args, s⟩, [⟨r, f, args, s⟩], by simp, fun call' h => ?_⟩
  exact h (⟨r, f, args, s⟩, _) (List.mem_singleton.2 rfl)

/-- One evaluation after another, which may depend on the value of the first. -/
theorem bind {x : RealmCaller → Eval α} {f : RealmCaller → α → Eval β} {Q : α → Prop}
    (hx : Finitary x) (hvalue : ∀ {call s a s'}, x call s = .ok a s' → Q a)
    (hf : ∀ a, Q a → Finitary fun call => f call a) : Finitary fun call => x call >>= f call := by
  intro call hcall s
  obtain ⟨hbalanced, asked, hstores, hsettled⟩ := hx call hcall s
  cases hrun : x call s with
  | error e s' =>
    rw [hrun] at hbalanced hsettled
    have hresult : (x call >>= f call) s = .error e s' := run_error hrun
    refine ⟨by rwa [hresult], asked, hstores, fun call' hcall' => ?_⟩
    exact (run_error (hsettled call' hcall')).trans hresult.symm
  | ok a s' =>
    rw [hrun] at hbalanced hsettled
    have hresult : (x call >>= f call) s = f call a s' := run_ok hrun
    have hcounts : s'.counts = s.counts := hbalanced
    obtain ⟨hbalanced', asked', hstores', hsettled'⟩ := hf a (hvalue hrun) call hcall s'
    refine ⟨?_, asked ++ asked', ?_, fun call' hcall' => ?_⟩
    · rw [hresult, hbalanced', hcounts]
    · rw [List.forall_mem_append]
      exact ⟨hstores, fun q hq => (hstores' q hq).trans hcounts⟩
    · rw [List.map_append, List.forall_mem_append] at hcall'
      calc (x call' >>= f call') s = f call' a s' := run_ok (hsettled call' hcall'.1)
        _ = f call a s' := hsettled' call' hcall'.2
        _ = (x call >>= f call) s := hresult.symm

theorem poll (r : RealmId) : Finitary fun _ => Eval.poll r := by
  refine of_counts fun s => ?_
  rw [Eval.poll_eq]
  split
  · exact s.counts_lower r
  · rfl

end Finitary

/-- Code asks for finitely many calls. -/
theorem Code.finitary {act : RealmCaller → Eval α} {Q : α → Prop}
    (h : Code (fun _ => True) act Q) : Finitary act := by
  induction h with
  | pure _ | throw _ | panic _ | definition? _ _ => exact .of_counts fun _ => rfl
  | bind hx _ ihx ihf => exact .bind ihx hx.value ihf
  | weaken _ _ ih => exact ih
  | ask r _ _ => exact .ask r _ _
  | poll r => exact .poll r
  | step h => exact .of_counts fun _ => by cases h <;> rfl

/-! ## Inside of a call -/

/-- A store inside of a call of a realm that was begun in another store: the calls in progress are
those that `Eval.enter` leaves. -/
def Enters (r : RealmId) (s s' : Store) : Prop :=
  ∃ s₁, Eval.enter r s = .ok () s₁ ∧ s'.counts = s₁.counts

/-- The calls of a realm that may still be begun inside of one another. -/
def Store.allowance (s : Store) (r : RealmId) : Nat :=
  (s.realm r).maxDepth - (s.realm r).depth

/-- A call that is neither interrupted nor refused enters. -/
theorem enters_of_free {r : RealmId} {s s' : Store} (hfree : ¬(s.realm r).interrupted)
    (hroom : ¬(s.realm r).maxDepth < (s.realm r).depth + 1)
    (hcounts : s'.counts = (s.entered r).counts) : Enters r s s' :=
  ⟨s.entered r, by rw [Eval.enter_eq, if_neg hfree, if_neg hroom], hcounts⟩

/-- What it is to enter a call. -/
theorem Enters.entered {r : RealmId} {s s' : Store} (h : Enters r s s') :
    (s.realm r).depth < (s.realm r).maxDepth ∧ s'.counts = (s.entered r).counts := by
  obtain ⟨s₁, henter, hcounts⟩ := h
  rw [Eval.enter_eq] at henter
  split at henter
  · cases henter
  · split at henter
    · cases henter
    · next hroom =>
      obtain ⟨-, rfl⟩ := EStateM.Result.ok.inj henter
      exact ⟨by omega, hcounts⟩

/-- Code inside of a call asks for calls with one more in progress. -/
theorem Finitary.within {act : RealmCaller → Eval α} (h : Finitary act) {call : RealmCaller}
    (hcall : call.Balanced) (r : RealmId) (s : Store) :
    Asks (fun call => Eval.within r (act call)) call s (Enters r s) := by
  have hwithin := fun call' : RealmCaller => Eval.within_eq r (act call') s
  by_cases hinterrupted : (s.realm r).interrupted
  · simp only [if_pos hinterrupted] at hwithin
    refine ⟨?_, [], by simp, fun call' _ => (hwithin call').trans (hwithin call).symm⟩
    rw [hwithin]
    exact s.counts_lower r
  by_cases hfull : (s.realm r).maxDepth < (s.realm r).depth + 1
  · simp only [if_neg hinterrupted, if_pos hfull] at hwithin
    refine ⟨?_, [], by simp, fun call' _ => (hwithin call').trans (hwithin call).symm⟩
    rw [hwithin]
    rfl
  simp only [if_neg hinterrupted, if_neg hfull] at hwithin
  obtain ⟨hbalanced, asked, hstores, hsettled⟩ := h call hcall (s.entered r)
  refine ⟨?_, asked, fun q hq => enters_of_free hinterrupted hfull (hstores q hq),
    fun call' hcall' => ?_⟩
  · rw [hwithin, storeAfter_mapStore]
    exact Eval.counts_left hbalanced
  · show Eval.within r (act call') s = Eval.within r (act call) s
    rw [hwithin, hwithin, hsettled call' hcall']

/-! ## Room for calls -/

/-- The allowances after one call of a realm was begun. -/
def spend (allowance : RealmId → Nat) (r : RealmId) : RealmId → Nat :=
  fun other => if other = r then allowance r - 1 else allowance other

theorem Store.allowance_eq (s : Store) (r : RealmId) :
    s.allowance r = (s.counts[r]?.map fun c => c.1 - c.2).getD 0 := by
  unfold allowance realm counts
  rw [List.getElem?_map]
  cases s.realms[r]? <;> rfl

/-- A call that enters has room. -/
theorem Enters.room {r : RealmId} {s s' : Store} (h : Enters r s s') : 0 < s.allowance r := by
  have hroom := h.entered.1
  unfold Store.allowance
  omega

theorem Enters.counts {r : RealmId} {s s' : Store} (h : Enters r s s') :
    s'.counts = s.counts.modify r oneMore :=
  h.entered.2.trans (s.counts_entered r)

theorem Enters.allowance {r : RealmId} {s s' : Store} (h : Enters r s s') :
    s'.allowance = spend s.allowance r := by
  funext other
  unfold spend
  rw [Store.allowance_eq, Store.allowance_eq, Store.allowance_eq, h.counts, List.getElem?_modify]
  by_cases hother : r = other
  · subst hother
    rw [if_pos rfl]
    cases s.counts[r]? with
    | none => rfl
    | some c =>
      simp [oneMore]
      omega
  · rw [if_neg (Ne.symm hother)]
    cases s.counts[other]? with
    | none => rfl
    | some c => simp [hother]

/-- A call that enters leaves less room. -/
theorem roomOf_modify_lt {counts : List (Nat × Nat)} {r : Nat}
    (h : 0 < (counts[r]?.map fun c => c.1 - c.2).getD 0) :
    roomOf (counts.modify r oneMore) < roomOf counts := by
  induction counts generalizing r with
  | nil => simp at h
  | cons c counts ih =>
    cases r with
    | zero =>
      have hc : 0 < c.1 - c.2 := by simpa using h
      simp only [roomOf, oneMore, List.modify_zero_cons, List.map_cons, List.foldr_cons]
      omega
    | succ r =>
      have hcounts := ih (r := r) (by simpa using h)
      simp only [roomOf, List.modify_succ_cons, List.map_cons, List.foldr_cons] at hcounts ⊢
      omega

/-- Inside of a call there are fewer calls left. -/
theorem Enters.callsLeft_lt {r : RealmId} {s s' : Store} (h : Enters r s s') :
    s'.callsLeft < s.callsLeft := by
  have hroom := h.room
  rw [Store.allowance_eq] at hroom
  rw [Store.callsLeft_eq, Store.callsLeft_eq, h.counts]
  exact roomOf_modify_lt hroom

end ExprLang
