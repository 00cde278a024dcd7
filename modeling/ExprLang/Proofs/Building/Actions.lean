import ExprLang.Proofs.Building.Registry

/-!
# What is done to a workbench

An `Action` is a step at a workbench: a draft is made, copied, put together from others, compiled or
called, a name is taken into use, or all are forgotten. Actions follow one another, whether they
fail or not (`Workbench.after`).

`Action.watch` performs an action and takes down what backends are asked for. It changes nothing
else (`Action.watch_eq`).
-/

namespace ExprLang

variable {α : Type}

/-! ## Actions -/

/-- The workbench after a step, whether it failed or not. -/
def benchAfter : EStateM.Result BuildError Workbench α → Workbench
  | .ok _ w | .error _ w => w

/-- What each of two steps does to a workbench, the one after the other does. -/
theorem benchAfter_bind {β : Type} {R : Workbench → Workbench → Prop} {x : Build α}
    {f : α → Build β}
    (htrans : ∀ w w' w'', R w w' → R w' w'' → R w w'') (hx : ∀ w, R w (benchAfter (x w)))
    (hf : ∀ a w, R w (benchAfter (f a w))) (w : Workbench) : R w (benchAfter ((x >>= f) w)) := by
  have hfirst := hx w
  cases hrun : x w with
  | ok a w' =>
    rw [hrun] at hfirst
    rw [run_ok hrun]
    exact htrans w w' _ hfirst (hf a w')
  | error e w' =>
    rw [hrun] at hfirst
    rwa [run_error hrun]

/-- What takes a source to a function. It may fail, and do anything to the store and the registry of
a workbench. It is handed a source and no draft, so it leaves the drafts alone: it changes none and
makes no new ones. -/
structure Backend where
  compile : String → Build Callable
  keeps : ∀ source w, (benchAfter (compile source w)).drafts = w.drafts

/-- The result of a run of source text as that of a step at a workbench. -/
def asStep (w : Workbench) : EStateM.Result Failure Store α → EStateM.Result BuildError Workbench α
  | .ok a s => .ok a { w with store := s }
  | .error e s => .error (.failure e) { w with store := s }

/-- An evaluation changes the store alone. -/
theorem step_lift (act : Run α) (w : Workbench) :
    (liftM act : Build α) w = asStep w (act w.store) := by
  unfold asStep
  rfl

theorem drafts_asStep (w : Workbench) (result : EStateM.Result Failure Store α) :
    (benchAfter (asStep w result)).drafts = w.drafts := by
  cases result <;> rfl

/-- The backend that drafts are compiled with unless they are given another. -/
def Backend.alone : Backend where
  compile source := compileAlone source
  keeps source w := by rw [step_lift, drafts_asStep]

/-- A step at a workbench. -/
inductive Workbench.Action where
  | placeholder (name : String)
  | marker (m : Marker)
  | construct (fragments : Fragments)
  | copy (id : DraftId)
  | combine (parts : List DraftId) (combinator : List Fragments → Except BuildError Fragments)
  | compile (id : DraftId)
  | compileWith (backend : Backend) (id : DraftId)
  | call (id : DraftId) (args : Arguments)
  | register (name : String)
  | clear

/-- What a step gives. -/
inductive Workbench.Result where
  | nothing
  | draft (id : DraftId)
  | function (f : Callable)
  | value (v : Value)

namespace Workbench

/-- A draft put together from others. A copy of a draft is the draft. -/
def combined (parts : List DraftId) (combinator : List Fragments → Except BuildError Fragments) :
    Build DraftId := do
  let w ← get
  match combinator (parts.map fun id => (w.draft id).fragments) with
  | .ok fragments => Build.newDraft fragments
  | .error e => throw e

/-- Performs an action. -/
def Action.perform : Action → Build Result
  | .placeholder name => return .draft (← Build.placeholder name)
  | .marker m => return .draft (← Build.marker m)
  | .construct fragments => return .draft (← Build.newDraft fragments)
  | .copy id => return .draft id
  | .combine parts combinator => return .draft (← combined parts combinator)
  | .compile id => return .function (← Build.compile id)
  | .compileWith backend id => return .function (← ExprLang.compileWith backend.compile id)
  | .call id args => return .value (← Build.call id args)
  | .register name => do
    Build.register name
    return .nothing
  | .clear => do
    Build.clear
    return .nothing

/-- The workbench after an action. -/
def after (w : Workbench) (action : Action) : Workbench :=
  benchAfter (action.perform w)

end Workbench

/-! ## Under watch -/

/-- A workbench, and the drafts and sources that backends were asked to compile, in order. -/
structure Watched where
  bench : Workbench
  asked : List (DraftId × String)

/-- A step that is watched. -/
abbrev Watch := EStateM BuildError Watched

instance : MonadStateOf Workbench Watch where
  get := return (← getThe Watched).bench
  set w := modifyThe Watched fun s => { s with bench := w }
  modifyGet f := modifyGetThe Watched fun s =>
    let (a, w) := f s.bench
    (a, { s with bench := w })

/-- A result, with what was asked for. -/
def watched (asked : List (DraftId × String)) :
    EStateM.Result BuildError Workbench α → EStateM.Result BuildError Watched α
  | .ok a w => .ok a ⟨w, asked⟩
  | .error e w => .error e ⟨w, asked⟩

instance : MonadLift Build Watch where
  monadLift act s := watched s.asked (act s.bench)

/-- A backend that takes down what it is asked for. -/
def asking (id : DraftId) (backend : Backend) (source : String) : Watch Callable := do
  modifyThe Watched fun s => { s with asked := s.asked ++ [(id, source)] }
  backend.compile source

namespace Workbench

/-- Performs an action, with every backend watched. -/
def Action.watch : Action → Watch Result
  | .compile id => return .function (← compileBy (asking id .alone) id)
  | .compileWith backend id => return .function (← ExprLang.compileWith (asking id backend) id)
  | .call id args => do
    let function ← compileBy (asking id .alone) id
    return .value (← ((function.call args : Run Value) : Build Value))
  | action => action.perform

/-- What is asked of a backend for a draft: its source, if it has no function yet. -/
def asks (w : Workbench) (id : DraftId) : List (DraftId × String) :=
  match (w.draft id).compiled with
  | some _ => []
  | none => [(id, w.source id)]

/-- What an action asks of a backend. -/
def Action.asks (w : Workbench) : Action → List (DraftId × String)
  | .compile id | .compileWith _ id | .call id _ => w.asks id
  | _ => []

end Workbench

/-! ## Compiling, step by step -/

variable {w : Workbench} {id : DraftId}

/-- A draft is compiled unless it was before. -/
theorem compileWith_eq (backend : Backend) (id : DraftId) (w : Workbench) :
    compileWith backend.compile id w =
      match (w.draft id).compiled with
      | some function => .ok function w
      | none =>
        match backend.compile (w.source id) w with
        | .ok function w' => .ok function (w'.setCompiled id function)
        | .error e w' => .error e w' := by
  unfold compileWith
  rw [run_get]
  cases (w.draft id).compiled with
  | some function => rfl
  | none =>
    dsimp only
    cases hbackend : backend.compile (w.source id) w with
    | ok function w' =>
      rw [run_ok hbackend]
      rfl
    | error e w' => exact run_error hbackend

/-- Looking at the draft first makes no difference. -/
theorem Build.compile_eq (id : DraftId) (w : Workbench) :
    Build.compile id w = compileWith Backend.alone.compile id w := by
  unfold Build.compile compileBy
  rw [run_get, compileWith_eq]
  cases hcompiled : (w.draft id).compiled with
  | some function => rfl
  | none =>
    have heq := compileWith_eq .alone id w
    rw [hcompiled] at heq
    exact heq

/-- A watched backend writes down what it is asked. -/
theorem asking_eq (backend : Backend) (source : String) (s : Watched) :
    asking id backend source s
      = watched (s.asked ++ [(id, source)]) (backend.compile source s.bench) :=
  rfl

/-- A draft asks its backend once, or not at all. -/
theorem compileWith_asking (backend : Backend) (id : DraftId) (s : Watched) :
    compileWith (asking id backend) id s
      = watched (s.asked ++ s.bench.asks id) (compileWith backend.compile id s.bench) := by
  rw [compileWith_eq]
  unfold compileWith Workbench.asks
  have hget : (get : Watch Workbench) s = .ok s.bench s := rfl
  rw [run_ok hget]
  cases (s.bench.draft id).compiled with
  | some function =>
    dsimp only
    rw [List.append_nil]
    rfl
  | none =>
    dsimp only
    have hasking := @asking_eq id backend (s.bench.source id) s
    cases hbackend : backend.compile (s.bench.source id) s.bench with
    | ok function w' =>
      rw [hbackend] at hasking
      rw [run_ok hasking]
      rfl
    | error e w' =>
      rw [hbackend] at hasking
      exact run_error hasking

theorem compileBy_asking (id : DraftId) (s : Watched) :
    compileBy (asking id .alone) id s
      = watched (s.asked ++ s.bench.asks id) (Build.compile id s.bench) := by
  rw [Build.compile_eq, ← compileWith_asking]
  unfold compileBy
  have hget : (get : Watch Workbench) s = .ok s.bench s := rfl
  rw [run_ok hget]
  cases hcompiled : (s.bench.draft id).compiled with
  | some function =>
    rw [compileWith_asking, compileWith_eq, hcompiled]
    simp only [Workbench.asks, hcompiled, List.append_nil]
    rfl
  | none => rfl

/-- Steps after a watched one go on under watch. -/
theorem watched_bind {β : Type} {x : Build α} {f : α → Build β} {y : Watch α} {g : α → Watch β}
    {s : Watched} {asked : List (DraftId × String)} (hy : y s = watched asked (x s.bench))
    (hg : ∀ a w, g a ⟨w, asked⟩ = watched asked (f a w)) :
    (y >>= g) s = watched asked ((x >>= f) s.bench) := by
  cases hx : x s.bench with
  | ok a w =>
    rw [hx] at hy
    rw [run_ok hy, run_ok hx]
    exact hg a w
  | error e w =>
    rw [hx] at hy
    rw [run_error hy, run_error hx]
    rfl

/-- Watching an action takes down what it asks for, and changes nothing else. -/
theorem Workbench.Action.watch_eq (action : Workbench.Action) (s : Watched) :
    action.watch s = watched (s.asked ++ action.asks s.bench) (action.perform s.bench) := by
  cases action with
  | compile id => exact watched_bind (compileBy_asking id s) fun _ _ => rfl
  | compileWith backend id => exact watched_bind (compileWith_asking backend id s) fun _ _ => rfl
  | call id args =>
    have hperform : (Action.call id args).perform = Build.compile id >>= fun function =>
        ((function.call args : Run Value) : Build Value) >>= fun v => pure (.value v) := by
      simp [perform, Build.call]
    rw [hperform]
    exact watched_bind (compileBy_asking id s) fun _ _ => watched_bind rfl fun _ _ => rfl
  | _ =>
    simp only [Action.asks, List.append_nil]
    rfl

end ExprLang
