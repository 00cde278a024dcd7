import ExprLang.Proofs.Building.Actions
import Mathlib

/-!
# Drafts are compiled once

`Workbench.memoises` : whatever was done to a workbench, each draft was given a function at most
once, and a draft that has one keeps it, whatever is done, registered or forgotten later
(`Workbench.Memoises`). A backend is asked exactly where a draft without a function is compiled or
called.

No action takes a function away or puts another in its place (`keeps_after`), as drafts are only
added, and a function is set only where there was none. The rest is read off what one action does.
-/

namespace ExprLang

open Workbench (Action)

variable {α β : Type} {w w' w'' : Workbench} {id : DraftId} {function : Callable}

/-! ## Functions that stay -/

/-- Whether drafts that have a function still have it. -/
def Workbench.Keeps (w w' : Workbench) : Prop :=
  ∀ id function, (w.draft id).compiled = some function → (w'.draft id).compiled = some function

namespace Workbench.Keeps

/-- A workbench keeps what it has. -/
theorem refl (w : Workbench) : w.Keeps w :=
  fun _ _ h => h

/-- What is kept twice is kept. -/
theorem trans (h : w.Keeps w') (h' : w'.Keeps w'') : w.Keeps w'' :=
  fun id function hcompiled => h' id function (h id function hcompiled)

/-- To leave the drafts is to keep them. -/
theorem of_drafts_eq (h : w'.drafts = w.drafts) : w.Keeps w' := by
  intro id function hcompiled
  rwa [draft, h]

/-- A new draft leaves the others. -/
theorem push (w : Workbench) (draft : Draft) :
    w.Keeps { w with drafts := w.drafts.push draft } := by
  intro id function hcompiled
  have hlt : id < w.drafts.size := by
    by_contra hge
    simp [Workbench.draft, Array.getElem?_eq_none (Nat.not_lt.1 hge)] at hcompiled
  simpa [Workbench.draft, Array.getElem?_push, Nat.ne_of_lt hlt] using hcompiled

/-- A function is kept if it is not replaced by another. -/
theorem setCompiled (h : (w.draft id).compiled = none) (function : Callable) :
    w.Keeps (w.setCompiled id function) := by
  intro other f hcompiled
  have hne : id ≠ other := by
    rintro rfl
    simp [h] at hcompiled
  simpa [Workbench.draft, Workbench.setCompiled, Array.getElem?_modify, hne] using hcompiled

end Workbench.Keeps

/-- A function that is set is there. -/
theorem Workbench.compiled_setCompiled (hid : id < w.drafts.size) (function : Callable) :
    ((w.setCompiled id function).draft id).compiled = some function := by
  simp [draft, setCompiled, hid, Array.getElem_modify]

/-- A step that takes no function away. -/
def Build.Keeps (x : Build α) : Prop :=
  ∀ w : Workbench, w.Keeps (benchAfter (x w))

namespace Build.Keeps

theorem pure (a : α) : Build.Keeps (pure a : Build α) :=
  fun w => .refl w

/-- One step that keeps drafts after another. -/
theorem bind {x : Build α} {f : α → Build β} (hx : Build.Keeps x) (hf : ∀ a, Build.Keeps (f a)) :
    Build.Keeps (x >>= f) :=
  benchAfter_bind (fun _ _ _ h h' => h.trans h') hx hf

theorem of_drafts_eq {x : Build α} (h : ∀ w, (benchAfter (x w)).drafts = w.drafts) :
    Build.Keeps x :=
  fun w => .of_drafts_eq (h w)

/-- A new draft leaves the others. -/
theorem newDraft (fragments : Fragments) : Build.Keeps (Build.newDraft fragments) :=
  fun w => .push w ⟨fragments, none⟩

theorem register (name : String) : Build.Keeps (Build.register name) := by
  refine .of_drafts_eq fun w => ?_
  unfold Build.register
  rw [run_get]
  split <;> rfl

theorem placeholder (name : String) : Build.Keeps (Build.placeholder name) := by
  intro w
  rw [Build.placeholder_eq]
  split
  · exact .refl w
  · split
    · exact .refl w
    · exact .push w ⟨[name], none⟩

/-- A marker is made at most once, as a new draft. -/
theorem marker (m : Marker) : Build.Keeps (Build.marker m) := by
  intro w
  unfold Build.marker
  rw [run_get]
  cases w.registry.marker? m with
  | some id => exact .refl w
  | none =>
    exact Build.Keeps.bind (.newDraft [m.name])
      (fun id => .bind (.of_drafts_eq fun _ => rfl) fun _ => .pure id) w

/-- What is combined is a new draft. -/
theorem combined (parts : List DraftId)
    (combinator : List Fragments → Except BuildError Fragments) :
    Build.Keeps (Workbench.combined parts combinator) := by
  intro w
  unfold Workbench.combined
  rw [run_get]
  cases combinator (parts.map fun id => (w.draft id).fragments) with
  | ok fragments => exact Build.Keeps.newDraft fragments w
  | error e => exact .refl w

/-- Compiling sets a function only where there is none. -/
theorem compileWith (backend : Backend) (id : DraftId) :
    Build.Keeps (ExprLang.compileWith backend.compile id) := by
  intro w
  rw [compileWith_eq]
  have hkeeps := backend.keeps (w.source id) w
  cases hcompiled : (w.draft id).compiled with
  | some function => exact .refl w
  | none =>
    dsimp only
    cases hbackend : backend.compile (w.source id) w with
    | ok function w' =>
      replace hkeeps : w'.drafts = w.drafts := by rwa [hbackend] at hkeeps
      have hnone : (w'.draft id).compiled = none := by rwa [Workbench.draft, hkeeps]
      exact (Workbench.Keeps.of_drafts_eq hkeeps).trans (.setCompiled hnone function)
    | error e w' =>
      rw [hbackend] at hkeeps
      exact .of_drafts_eq hkeeps

theorem compile (id : DraftId) : Build.Keeps (Build.compile id) := by
  intro w
  rw [Build.compile_eq]
  exact Build.Keeps.compileWith .alone id w

theorem call (id : DraftId) (args : Arguments) : Build.Keeps (Build.call id args) :=
  .bind (.compile id) fun function => .of_drafts_eq fun w => by rw [step_lift, drafts_asStep]

/-- Every action keeps what is compiled. -/
theorem perform (action : Action) : Build.Keeps action.perform := by
  cases action with
  | placeholder name => exact .bind (.placeholder name) fun _ => .pure _
  | marker m => exact .bind (.marker m) fun _ => .pure _
  | construct fragments => exact .bind (.newDraft fragments) fun _ => .pure _
  | copy id => exact .pure _
  | combine parts combinator => exact .bind (.combined parts combinator) fun _ => .pure _
  | compile id => exact .bind (.compile id) fun _ => .pure _
  | compileWith backend id => exact .bind (.compileWith backend id) fun _ => .pure _
  | call id args => exact .bind (.call id args) fun _ => .pure _
  | register name => exact .bind (.register name) fun _ => .pure _
  | clear => exact .bind (.of_drafts_eq fun _ => rfl) fun _ => .pure _

end Build.Keeps

theorem Workbench.keeps_after (w : Workbench) (action : Action) : w.Keeps (w.after action) :=
  Build.Keeps.perform action w

theorem Workbench.keeps_foldl (w : Workbench) (actions : List Action) :
    w.Keeps (actions.foldl after w) := by
  induction actions generalizing w with
  | nil => exact .refl w
  | cons action actions ih => exact (w.keeps_after action).trans (ih (w.after action))

/-! ## How often a draft is compiled -/

namespace Workbench

/-- How many actions give a draft a function that it did not have. -/
def compilations (id : DraftId) (w : Workbench) : List Action → Nat
  | [] => 0
  | action :: actions =>
    (if (w.draft id).compiled.isNone && ((w.after action).draft id).compiled.isSome then 1 else 0)
      + compilations id (w.after action) actions

/-- A draft that is compiled is never compiled again. -/
theorem compilations_eq_zero (h : (w.draft id).compiled = some function) (actions : List Action) :
    w.compilations id actions = 0 := by
  induction actions generalizing w with
  | nil => rfl
  | cons action actions ih =>
    simp [compilations, h, ih (w.keeps_after action id function h)]

/-- No draft is compiled more than once. -/
theorem compilations_le_one (id : DraftId) (w : Workbench) (actions : List Action) :
    w.compilations id actions ≤ 1 := by
  induction actions generalizing w with
  | nil => exact Nat.zero_le 1
  | cons action actions ih =>
    unfold compilations
    cases hafter : ((w.after action).draft id).compiled with
    | none => simpa [hafter] using ih (w.after action)
    | some function =>
      rw [compilations_eq_zero hafter]
      split <;> omega

/-! ## One action -/

/-- A draft that was just made is not compiled. -/
theorem new_of_push {fragments : Fragments} (h : w'.drafts = w.drafts.push ⟨fragments, none⟩) :
    w.drafts.size < w'.drafts.size ∧ (w'.draft w.drafts.size).compiled = none := by
  simp [draft, h]

/-- A draft that an action gives was there before, or is new and has no function. -/
theorem made_of_perform {action : Action} {new : DraftId}
    (h : action.perform w = .ok (.draft new) w') :
    action = .copy new ∨ (∃ m, action = .marker m ∧ w.registry.marker? m = some new) ∨
      new = w.drafts.size ∧ new < w'.drafts.size ∧ (w'.draft new).compiled = none := by
  cases action with
  | copy id =>
    cases h
    exact .inl rfl
  | placeholder name =>
    obtain ⟨id, w₁, hstep, hresult⟩ := run_eq_ok h
    obtain ⟨hid, rfl⟩ := EStateM.Result.ok.inj hresult
    rw [Build.placeholder_eq] at hstep
    split at hstep
    · cases hstep
    · split at hstep
      · cases hstep
      · cases hstep
        cases hid
        exact .inr (.inr ⟨rfl, new_of_push rfl⟩)
  | marker m =>
    obtain ⟨id, w₁, hstep, hresult⟩ := run_eq_ok h
    obtain ⟨hid, rfl⟩ := EStateM.Result.ok.inj hresult
    cases hid
    unfold Build.marker at hstep
    rw [run_get] at hstep
    cases hmarker : w.registry.marker? m with
    | some id =>
      rw [hmarker] at hstep
      cases hstep
      exact .inr (.inl ⟨m, rfl, hmarker⟩)
    | none =>
      rw [hmarker] at hstep
      cases hstep
      exact .inr (.inr ⟨rfl, new_of_push rfl⟩)
  | construct fragments =>
    cases h
    exact .inr (.inr ⟨rfl, new_of_push rfl⟩)
  | combine parts combinator =>
    obtain ⟨id, w₁, hstep, hresult⟩ := run_eq_ok h
    obtain ⟨hid, rfl⟩ := EStateM.Result.ok.inj hresult
    cases hid
    unfold combined at hstep
    rw [run_get] at hstep
    cases hfragments : combinator (parts.map fun id => (w.draft id).fragments) with
    | ok fragments =>
      rw [hfragments] at hstep
      cases hstep
      exact .inr (.inr ⟨rfl, new_of_push rfl⟩)
    | error e =>
      rw [hfragments] at hstep
      cases hstep
  | compile | compileWith | call | register | clear =>
    obtain ⟨_, _, _, hresult⟩ := run_eq_ok h
    cases hresult

/-- A draft that could not be compiled has no function, and no draft has changed. -/
theorem failed_of_compileWith {backend : Backend} {e : BuildError}
    (h : compileWith backend.compile id w = .error e w') :
    w'.drafts = w.drafts ∧ (w'.draft id).compiled = none := by
  rw [compileWith_eq] at h
  cases hcompiled : (w.draft id).compiled with
  | some function => simp [hcompiled] at h
  | none =>
    have hkeeps := backend.keeps (w.source id) w
    cases hbackend : backend.compile (w.source id) w with
    | ok function w₁ => simp [hcompiled, hbackend] at h
    | error e₁ w₁ =>
      simp only [hcompiled, hbackend] at h
      cases h
      have hdrafts : w'.drafts = w.drafts := by rwa [hbackend] at hkeeps
      exact ⟨hdrafts, by rwa [draft, hdrafts]⟩

/-- A draft that was compiled has the function that this gave. -/
theorem compiled_of_compileWith {backend : Backend} (hid : id < w.drafts.size)
    (h : compileWith backend.compile id w = .ok function w') :
    (w'.draft id).compiled = some function := by
  rw [compileWith_eq] at h
  cases hcompiled : (w.draft id).compiled with
  | some f =>
    simp only [hcompiled] at h
    cases h
    exact hcompiled
  | none =>
    have hkeeps := backend.keeps (w.source id) w
    cases hbackend : backend.compile (w.source id) w with
    | ok f w₁ =>
      simp only [hcompiled, hbackend] at h
      cases h
      replace hkeeps : w₁.drafts = w.drafts := by rwa [hbackend] at hkeeps
      exact compiled_setCompiled (by rwa [hkeeps]) function
    | error e w₁ => simp [hcompiled, hbackend] at h

/-- The function that was kept is given back, whatever the backend is. -/
theorem compileWith_of_compiled (h : (w.draft id).compiled = some function) (backend : Backend) :
    compileWith backend.compile id w = .ok function w := by
  rw [compileWith_eq, h]

/-- The function that was kept is given back. -/
theorem compile_of_compiled (h : (w.draft id).compiled = some function) :
    Build.compile id w = .ok function w := by
  rw [Build.compile_eq, compileWith_of_compiled h]

/-! ## All actions -/

/-- What is known of drafts and their functions on a workbench. -/
structure Memoises (w : Workbench) : Prop where
  /-- A backend is asked once, for the source of a draft, where a draft without a function is
  compiled or called, and is not asked otherwise. -/
  asked (action : Action) (asked : List (DraftId × String)) :
    action.watch ⟨w, asked⟩ = watched (asked ++ action.asks w) (action.perform w)
  /-- A draft that an action gives is a copy, a marker made before, or new. A new one has no
  function. -/
  made (action : Action) (new : DraftId) (w' : Workbench) :
    action.perform w = .ok (.draft new) w' →
    action = .copy new ∨ (∃ m, action = .marker m ∧ w.registry.marker? m = some new) ∨
      new = w.drafts.size ∧ new < w'.drafts.size ∧ (w'.draft new).compiled = none
  /-- A draft that cannot be compiled stays without a function, and all drafts as they are. -/
  failed (id : DraftId) (backend : Backend) (e : BuildError) (w' : Workbench) :
    ExprLang.compileWith backend.compile id w = .error e w' ∨ Build.compile id w = .error e w' →
    w'.drafts = w.drafts ∧ (w'.draft id).compiled = none
  /-- A call of a draft that cannot be compiled fails as its compilation does. -/
  uncalled (id : DraftId) (args : Arguments) (e : BuildError) (w' : Workbench) :
    Build.compile id w = .error e w' → Build.call id args w = .error e w'
  /-- A draft that was compiled has the function that this gave. -/
  compiled (id : DraftId) (backend : Backend) (function : Callable) (w' : Workbench) :
    id < w.drafts.size →
    ExprLang.compileWith backend.compile id w = .ok function w' ∨
      Build.compile id w = .ok function w' →
    (w'.draft id).compiled = some function
  /-- A draft that has a function keeps it through all that is done later, gives it to whoever
  compiles the draft, and is called by it. -/
  lasting (id : DraftId) (function : Callable) (later : List Action) :
    (w.draft id).compiled = some function →
    let w' := later.foldl after w
    (w'.draft id).compiled = some function ∧ Build.compile id w' = .ok function w' ∧
      (∀ backend : Backend, ExprLang.compileWith backend.compile id w' = .ok function w') ∧
      ∀ args, Build.call id args w' = ((function.call args : Run Value) : Build Value) w'

/-- Whatever is done to a workbench, each draft is compiled at most once, and keeps its function.
The backends may be any that leave the drafts alone while they compile (`Backend.keeps`), as the one
that drafts are compiled with by themselves does (`Backend.alone`); of a backend that makes or
compiles drafts on the way, nothing is said. -/
theorem memoises (actions : List Action) :
    (actions.foldl after empty).Memoises ∧ ∀ id, empty.compilations id actions ≤ 1 := by
  refine ⟨?_, fun id => compilations_le_one id empty actions⟩
  generalize actions.foldl after empty = w
  exact {
    asked := fun action asked => action.watch_eq ⟨w, asked⟩
    made := fun action new w' => made_of_perform
    failed := fun id backend e w' h => by
      rcases h with h | h
      · exact failed_of_compileWith h
      · rw [Build.compile_eq] at h
        exact failed_of_compileWith h
    uncalled := fun id args e w' h => run_error h
    compiled := fun id backend function w' hid h => by
      rcases h with h | h
      · exact compiled_of_compileWith hid h
      · rw [Build.compile_eq] at h
        exact compiled_of_compileWith hid h
    lasting := fun id function later h => by
      have hlater := w.keeps_foldl later id function h
      exact ⟨hlater, compile_of_compiled hlater, compileWith_of_compiled hlater,
        fun args => run_ok (compile_of_compiled hlater)⟩ }

end Workbench

end ExprLang
