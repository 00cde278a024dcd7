import ExprLang.Proofs.Evaluating.Lines
import ExprLang.Proofs.Evaluating.Mirrors

/-!
# Interrupts

Evaluation looks at the flags that ask for interrupts only to end where one is up, and takes down
that one flag. So a flag is never raised, an evaluation is interrupted exactly if it took a flag
down, and a flag that is still up was never looked at (`interrupts_exact`).
-/

namespace ExprLang

/-! ## One run -/

/-- What the end of an evaluation with an error says of the flags: an interrupt took one down, and
any other error left them as they were. -/
inductive Heeds (s : Store) : RuntimeError → Store → Prop
  | interrupt {s' : Store} (w : RealmId) : (s.realm w).interrupted →
    (∀ r, (s'.realm r).interrupted = ((s.lower w).realm r).interrupted) → Heeds s .interrupted s'
  | other {e : RuntimeError} {s' : Store} : e ≠ .interrupted →
    (∀ r, (s'.realm r).interrupted = (s.realm r).interrupted) → Heeds s e s'

/-- A flag that is lowered leaves those of the other realms. -/
theorem Store.interrupted_lower (s : Store) (w r : RealmId) :
    ((s.lower w).realm r).interrupted = (decide (w ≠ r) && (s.realm r).interrupted) := by
  unfold lower modifyRealm realm
  rw [List.getElem?_modify]
  cases s.realms[r]? with
  | none => by_cases hw : w = r <;> simp [hw, Realm.empty]
  | some realm => by_cases hw : w = r <;> simp [hw]

theorem Store.interrupted_entered (s : Store) (w r : RealmId) :
    ((s.entered w).realm r).interrupted = (s.realm r).interrupted :=
  realm_modifyRealm fun _ => rfl

theorem Eval.interrupted_left (s : Store) (w r : RealmId) :
    ((left w s).realm r).interrupted = (s.realm r).interrupted :=
  Store.realm_modifyRealm fun _ => rfl

/-- No run raises a flag, and none is lowered but by the interrupt. -/
theorem moves_interrupts :
    Moves (fun s s' => ∀ r, (s'.realm r).interrupted = (s.realm r).interrupted) Heeds where
  refl _ _ := rfl
  trans h h' r := (h' r).trans (h r)
  fail {s s' e s''} h h' := by
    cases h' with
    | interrupt w hw hlowered =>
      refine .interrupt w (h w ▸ hw) fun r => ?_
      rw [hlowered, Store.interrupted_lower, Store.interrupted_lower, h]
    | other he hsame => exact .other he fun r => (hsame r).trans (h r)
  throw _ he := .other he fun _ => rfl
  step h s r := by cases h <;> rfl
  obey hw := .interrupt _ hw fun _ => rfl
  left h r := by rw [Eval.interrupted_left, h, Store.interrupted_entered]
  leftError {s w e s'} h := by
    cases h with
    | interrupt v hv hlowered =>
      refine .interrupt v (s.interrupted_entered w v ▸ hv) fun r => ?_
      rw [Eval.interrupted_left, hlowered, Store.interrupted_lower, Store.interrupted_lower,
        Store.interrupted_entered]
    | other he hsame =>
      refine .other he fun r => ?_
      rw [Eval.interrupted_left, hsame, Store.interrupted_entered]

/-! ## Two runs -/

/-- To lower a flag is to change one realm. -/
theorem Store.mapEach_lower (w : RealmId) (s : Store) : s.lower w =
    s.mapEach fun r realm => if w = r then { realm with interrupted := false } else realm :=
  s.modifyRealm_eq_mapEach w _

/-- A flag that is down already may be lowered. -/
theorem unseen_lower (w : RealmId) :
    Unseen (fun _ => True)
      (fun r realm => if w = r then { realm with interrupted := false } else realm)
      (fun _ s => ¬(s.realm w).interrupted) (fun _ => True) where
  kept := lasting_of_counts fun _ _ => trivial
  after h := by rwa [Eval.interrupted_left]
  globals r realm _ _ := by split <;> rfl
  flag r realm := by split <;> rfl
  depth r realm d := by split <;> rfl
  heeded {s r} hinterrupted := by
    by_cases hw : w = r
    · subst hw
      exact .inl (by simp [Store.interrupted_lower])
    · exact .inr (by simpa [hw] using hinterrupted)
  unheeded {r realm} hfree := by
    split
    · nofun
    · exact hfree
  refused {s r} hfull := .inr (by split <;> exact hfull)
  admitted _ hroom := ⟨by split <;> exact hroom, trivial⟩

/-- A flag that is still up afterwards might as well have been down. -/
theorem run_lower (r : RealmId) (scope : Scope) (e : Expr) {s : Store} {w : RealmId}
    (hw : ((storeAfter (e.run r scope s)).realm w).interrupted) :
    e.run r scope (s.lower w) = mapStore (·.lower w) (e.run r scope s) := by
  have hroom : (s.lower w).callsLeft = s.callsLeft := Store.callsLeft_of_counts (s.counts_lower w)
  have hlower : (Store.lower · w) = Store.mapEach fun r realm =>
      if w = r then { realm with interrupted := false } else realm :=
    funext (Store.mapEach_lower w)
  unfold Expr.run at *
  rw [hroom, hlower, Store.mapEach_lower w s]
  obtain ⟨err, s', hrun, hdown⟩ | hsame :=
    (unseen_lower w).eval (s.callsLeft + 1) r scope e (s := s) trivial
  · rw [hrun] at hw
    exact absurd hw hdown
  · exact hsame

/-- The two ways to end: as an interrupt that took a flag down, or otherwise with all flags as they
were. -/
theorem run_heeds (r : RealmId) (scope : Scope) (e : Expr) (s : Store) :
    (∃ s' w, e.run r scope s = .error .interrupted s' ∧ (s.realm w).interrupted ∧
      ∀ r, (s'.realm r).interrupted = ((s.lower w).realm r).interrupted) ∨
    (∀ s', e.run r scope s ≠ .error .interrupted s') ∧
      ∀ r', ((storeAfter (e.run r scope s)).realm r').interrupted = (s.realm r').interrupted := by
  have hmoved := moves_interrupts.eval (s.callsLeft + 1) r scope e s
  unfold Expr.run
  cases hrun : eval (callValue (s.callsLeft + 1)) r scope e s with
  | ok v s' =>
    rw [hrun] at hmoved
    exact .inr ⟨nofun, hmoved⟩
  | error err s' =>
    rw [hrun] at hmoved
    cases hmoved with
    | interrupt w hw hlowered => exact .inl ⟨s', w, rfl, hw, hlowered⟩
    | other herr hsame =>
      exact .inr ⟨fun s'' h => herr (EStateM.Result.error.inj h).1, hsame⟩

/-- Interrupts are delivered exactly. No flag is raised; the outcome is an interrupt if and only
if a flag was up before and is down after; and as long as a flag stays up, all is as if it were
down. -/
theorem interrupts_exact (r : RealmId) (scope : Scope) (e : Expr) (s : Store) :
    (∀ w, ((storeAfter (e.run r scope s)).realm w).interrupted → (s.realm w).interrupted) ∧
    ((∃ err s', e.run r scope s = .error err s' ∧ err.kind = .keyboardInterrupt) ↔
      ∃ w, (s.realm w).interrupted ∧
        ¬((storeAfter (e.run r scope s)).realm w).interrupted) ∧
    ∀ w, ((storeAfter (e.run r scope s)).realm w).interrupted →
      e.run r scope (s.lower w) = mapStore (·.lower w) (e.run r scope s) := by
  refine ⟨?_, ?_, fun w => run_lower r scope e⟩
  · intro w hw
    obtain ⟨s', v, hrun, -, hlowered⟩ | ⟨-, hsame⟩ := run_heeds r scope e s
    · rw [hrun] at hw
      have hw := (hlowered w).symm.trans hw
      rw [Store.interrupted_lower, Bool.and_eq_true] at hw
      exact hw.2
    · exact (hsame w).symm.trans hw
  · constructor
    · rintro ⟨err, s', hrun, hkind⟩
      obtain ⟨s', v, hrun, hv, hlowered⟩ | ⟨hother, -⟩ := run_heeds r scope e s
      · refine ⟨v, hv, ?_⟩
        rw [hrun]
        simp [storeAfter, hlowered, Store.interrupted_lower]
      · cases err with
        | interrupted => exact absurd hrun (hother s')
        | _ => cases hkind
    · rintro ⟨w, hw, hdown⟩
      obtain ⟨s', v, hrun, -, -⟩ | ⟨-, hsame⟩ := run_heeds r scope e s
      · exact ⟨_, s', hrun, rfl⟩
      · exact absurd ((hsame w).trans hw) hdown

/-- A literal calls nothing, so its evaluation leaves a flag up. -/
theorem interrupts_exact_literal :
    ((storeAfter ((Expr.literal (.int 1)).run 0 [] ((Session.new 1).setInterrupt true).store)).realm
        0).interrupted ∧
      (Expr.literal (.int 1)).run 0 [] (((Session.new 1).setInterrupt true).store.lower 0) =
        mapStore (·.lower 0)
          ((Expr.literal (.int 1)).run 0 [] ((Session.new 1).setInterrupt true).store) :=
  ⟨rfl, (interrupts_exact 0 [] (.literal (.int 1)) ((Session.new 1).setInterrupt true).store).2.2 0
    rfl⟩

end ExprLang
