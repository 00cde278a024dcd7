/-!
# Runs over a state

A computation over a state that may fail is followed one step at a time: if the first part succeeds
the run goes on with what it gave (`run_ok`), and if it fails the whole fails (`run_error`). So
where the whole succeeded, both parts did (`run_eq_ok`). A run gives one value only (`ok_unique`).
-/

namespace ExprLang

variable {ε σ α β : Type} {x : EStateM ε σ α} {f : α → EStateM ε σ β} {s s' : σ}

theorem run_ok {a : α} (h : x s = .ok a s') : (x >>= f) s = f a s' := by
  show EStateM.bind x f s = f a s'
  unfold EStateM.bind
  rw [h]

theorem run_error {e : ε} (h : x s = .error e s') : (x >>= f) s = .error e s' := by
  show EStateM.bind x f s = .error e s'
  unfold EStateM.bind
  rw [h]

/-- Two computations succeed if both do. -/
theorem run_eq_ok {b : β} (h : (x >>= f) s = .ok b s') :
    ∃ a s₁, x s = .ok a s₁ ∧ f a s₁ = .ok b s' := by
  cases hx : x s with
  | ok a s₁ => exact ⟨a, s₁, rfl, by rwa [run_ok hx] at h⟩
  | error e s₁ => simp [run_error hx] at h

/-- One state comes to one result. -/
theorem ok_unique {a b : α} {s₁ s₂ : σ} (h : x s = .ok a s₁) (h' : x s = .ok b s₂) : a = b := by
  rw [h] at h'
  cases h'
  rfl

theorem run_get (f : σ → EStateM ε σ β) (s : σ) : (get >>= f) s = f s s := rfl

end ExprLang
