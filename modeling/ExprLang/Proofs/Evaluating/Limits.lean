import ExprLang.Proofs.Evaluating.Lines
import ExprLang.Proofs.Evaluating.Mirrors
import ExprLang.Proofs.Evaluating.Termination

/-!
# Limits on calls

The number of calls that a realm allows is seen only where one is refused. With higher limits no
call is refused that was not before, so an evaluation that does not end in a recursion error comes
to the same with higher limits (`run_withLimits`). No error of a refused call is lost on the way:
every step hands on the errors of those that it consists of.
-/

namespace ExprLang

/-- The store with other limits on the calls of its realms. -/
def Store.withLimits (limit : RealmId → Nat) : Store → Store :=
  .mapEach fun r realm => { realm with maxDepth := limit r }

/-- The last limits count. -/
theorem Store.withLimits_withLimits (m m' : RealmId → Nat) (s : Store) :
    (s.withLimits m).withLimits m' = s.withLimits m' := by
  unfold withLimits mapEach mapRealms
  rw [List.mapIdx_mapIdx]
  rfl

theorem Store.maxDepth_withLimits_le (m : RealmId → Nat) (s : Store) (r : RealmId) :
    ((s.withLimits m).realm r).maxDepth ≤ m r := by
  unfold withLimits
  obtain h | ⟨-, h⟩ := s.realm_mapEach (fun r realm => { realm with maxDepth := m r }) r
  · exact Nat.le_of_eq (congrArg Realm.maxDepth h)
  · exact Nat.le_trans (Nat.le_of_eq (congrArg Realm.maxDepth h)) (Nat.zero_le _)

/-- Limits that are high enough are not seen. -/
theorem unseen_limits (m : RealmId → Nat) :
    Unseen (fun _ => True) (fun r realm => { realm with maxDepth := m r })
      (fun e _ => e = .tooManyCalls) (fun s => ∀ r, (s.realm r).maxDepth ≤ m r) where
  kept := lasting_of_counts fun hcounts hs r => by
    rw [(Store.realm_of_counts hcounts r).1]
    exact hs r
  after he := he
  globals _ _ _ _ := rfl
  flag _ _ := rfl
  depth _ _ _ := rfl
  heeded hinterrupted := .inr hinterrupted
  unheeded hfree := hfree
  refused _ := .inl rfl
  admitted {s r} hs hroom := by
    refine ⟨fun hfull => hroom (Nat.lt_of_le_of_lt (hs r) hfull), fun w => ?_⟩
    rw [Store.realm_entered hroom]
    split
    · exact hs w
    · exact hs w

/-- More room for calls than the store allows changes nothing. -/
theorem run_eq {n : Nat} {s : Store} (hn : s.callsLeft < n) (r : RealmId) (scope : Scope)
    (e : Expr) : e.run r scope s = eval (callValue n) r scope e s := by
  obtain ⟨-, asked, hstores, hsettled⟩ :=
    Finitary.eval r scope e _ (callValue_balanced (s.callsLeft + 1)) s
  refine (hsettled (callValue n) ?_).symm
  simp only [List.forall_mem_map]
  intro q hq
  have hroom := Store.callsLeft_of_counts (hstores q hq)
  exact answer_callValue (by omega) (by omega)

/-- Under higher limits evaluation comes to the same value or error, with the same effects, unless
it came to a recursion error under the lower ones. -/
theorem run_withLimits {m m' : RealmId → Nat} (hle : ∀ r, m r ≤ m' r) (s : Store) (r : RealmId)
    (scope : Scope) (e : Expr)
    (hended : ∀ err s', e.run r scope (s.withLimits m) = .error err s' →
      err.kind ≠ .recursionError) :
    e.run r scope (s.withLimits m') =
      mapStore (·.withLimits m') (e.run r scope (s.withLimits m)) := by
  have hlimit : ∀ r, ((s.withLimits m).realm r).maxDepth ≤ m' r := fun r =>
    Nat.le_trans (s.maxDepth_withLimits_le m r) (hle r)
  obtain ⟨n, hn, hn'⟩ : ∃ n, (s.withLimits m).callsLeft < n ∧ (s.withLimits m').callsLeft < n :=
    ⟨(s.withLimits m).callsLeft + (s.withLimits m').callsLeft + 1, by omega, by omega⟩
  rw [run_eq hn] at hended ⊢
  rw [run_eq hn', ← s.withLimits_withLimits m m']
  obtain ⟨err, s', hrun, rfl⟩ | hsame := (unseen_limits m').eval n r scope e hlimit
  · exact absurd rfl (hended _ s' hrun)
  · exact hsame

/-- The function `lambda x: x` called where one call is allowed, and where two are. -/
theorem run_withLimits_identity :
    (∀ err s', (Expr.call (.lambda ⟨[⟨"x", none⟩], none, [], none⟩ (.var "x"))
        [.positional (.literal (.int 1))]).run 0 [] ((Session.new 1).store.withLimits fun _ => 1) =
          .error err s' → err.kind ≠ .recursionError) ∧
      (Expr.call (.lambda ⟨[⟨"x", none⟩], none, [], none⟩ (.var "x"))
        [.positional (.literal (.int 1))]).run 0 [] ((Session.new 1).store.withLimits fun _ => 2) =
      mapStore (·.withLimits fun _ => 2)
        ((Expr.call (.lambda ⟨[⟨"x", none⟩], none, [], none⟩ (.var "x"))
          [.positional (.literal (.int 1))]).run 0 []
            ((Session.new 1).store.withLimits fun _ => 1)) := by
  have hended : ∀ err s', (Expr.call (.lambda ⟨[⟨"x", none⟩], none, [], none⟩ (.var "x"))
      [.positional (.literal (.int 1))]).run 0 [] ((Session.new 1).store.withLimits fun _ => 1) =
        .error err s' → err.kind ≠ .recursionError := nofun
  exact ⟨hended, run_withLimits (fun _ => by decide) _ 0 [] _ hended⟩

end ExprLang
