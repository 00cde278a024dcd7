import ExprLang.Fragments
import ExprLang.Source

/-!
# Drafts and placeholders

A workbench holds drafts, expressions under construction that never change, and the registry of
placeholder names. A name is given out once until the registry is cleared; the two collecting
markers are drafts of their own, made when first asked for.

A draft is compiled at most once. `compileWith` asks a backend only for a draft that has no
function yet, and keeps what it answers; a failure is not kept.
-/

namespace ExprLang

/-! ## Errors -/

/-- What can go wrong at a workbench. -/
inductive BuildError where
  | namingConflict (name : String)
  | invalidIdentifier (name : String)
  | argumentType (argument kind : String)
  | failure (f : Failure)
  deriving DecidableEq, Repr

/-- The error as it is reported to a user. -/
def BuildError.report : BuildError → String
  | .namingConflict name => "name `" ++ name ++ "` has already been created"
  | .invalidIdentifier name => "name `" ++ name ++ "` is not a valid identifier"
  | .argumentType argument kind =>
    "arguments should be expression text, got " ++ kind ++ " (" ++ argument ++ ")"
  | .failure f => f.report

/-! ## The workbench -/

/-- A number that tells one draft from another. -/
abbrev DraftId := Nat

/-- The markers that collect extra arguments. -/
inductive Marker where
  | args
  | kwargs
  deriving DecidableEq, Repr

/-- How a marker is written. -/
def Marker.name : Marker → String
  | .args => "*args"
  | .kwargs => "**kwargs"

/-- The placeholder names in use, and the drafts of the markers. -/
structure Registry where
  names : List String
  args : Option DraftId
  kwargs : Option DraftId

/-- The registry without names. -/
def Registry.empty : Registry :=
  ⟨[], none, none⟩

/-- Whether a name is in use. -/
def Registry.contains (g : Registry) (name : String) : Bool :=
  g.names.contains name

/-- The registry with a name in use. -/
def Registry.add (g : Registry) (name : String) : Registry :=
  if g.contains name then g else { g with names := name :: g.names }

/-- The draft of a marker, if it was made. -/
def Registry.marker? (g : Registry) : Marker → Option DraftId
  | .args => g.args
  | .kwargs => g.kwargs

/-- The registry with the draft of a marker. -/
def Registry.setMarker (g : Registry) (m : Marker) (id : DraftId) : Registry :=
  match m with
  | .args => { g.add m.name with args := some id }
  | .kwargs => { g.add m.name with kwargs := some id }

/-- An expression under construction, and its function once it is compiled. -/
structure Draft where
  fragments : Fragments
  compiled : Option Callable

/-- Drafts, the registry of names, and the store that functions live in. -/
structure Workbench where
  drafts : Array Draft
  registry : Registry
  store : Store

/-- The workbench on which nothing lies. -/
def Workbench.empty (addresses : Addresses := .apart) : Workbench where
  drafts := #[]
  registry := Registry.empty
  store := .empty addresses

/-- A draft, by its number. -/
def Workbench.draft (w : Workbench) (id : DraftId) : Draft :=
  w.drafts[id]?.getD ⟨[], none⟩

/-- The names in a draft that are registered now. -/
def Workbench.freeNames (w : Workbench) (id : DraftId) : List String :=
  (w.draft id).fragments.freeNames w.registry.contains

/-- The lambda that a draft stands for now. -/
def Workbench.source (w : Workbench) (id : DraftId) : String :=
  (w.draft id).fragments.lambdaSource w.registry.contains

/-! ## Building -/

/-- A step at a workbench. -/
abbrev Build := EStateM BuildError Workbench

instance : MonadLift Run Build where
  monadLift act w :=
    match act w.store with
    | .ok a s => .ok a { w with store := s }
    | .error e s => .error (.failure e) { w with store := s }

namespace Build

/-- A new draft. -/
def newDraft (fragments : Fragments) : Build DraftId := do
  let w ← get
  set { w with drafts := w.drafts.push ⟨fragments, none⟩ }
  return w.drafts.size

/-- Takes a name into use. -/
def register (name : String) : Build Unit := do
  if (← get).registry.contains name then throw (.namingConflict name)
  modify fun w => { w with registry := w.registry.add name }

/-- Forgets every name, and the markers. Drafts stay. -/
def clear : Build Unit :=
  modify fun w => { w with registry := Registry.empty }

/-- A new placeholder. Its name must be free and usable as a name. -/
def placeholder (name : String) : Build DraftId := do
  if (← get).registry.contains name then throw (.namingConflict name)
  if !isIdentifier name || isReservedWord name then throw (.invalidIdentifier name)
  register name
  newDraft [name]

/-- The draft of a marker, made when it is first asked for. -/
def marker (m : Marker) : Build DraftId := do
  match (← get).registry.marker? m with
  | some id => return id
  | none =>
    let id ← newDraft [m.name]
    modify fun w => { w with registry := w.registry.setMarker m id }
    return id

/-- An argument of a call given as source. Anything else is refused. -/
def sourceOf (label : String) (operand : Operand) : Except BuildError String :=
  match operand with
  | .text source => .ok source
  | operand => .error (.argumentType (label ++ operand.source) operand.kind)

/-- The fragments of a call of a draft. -/
def applied (fragments : Fragments) (args : List Operand) (keywords : List (String × Operand)) :
    Except BuildError Fragments := do
  let args ← args.mapM (sourceOf "")
  let keywords ← keywords.mapM fun (name, operand) =>
    return (name, ← sourceOf (name ++ "=") operand)
  return fragments.apply args keywords

end Build

/-! ## Compiling -/

/-- The workbench with the function of a draft. -/
def Workbench.setCompiled (w : Workbench) (id : DraftId) (function : Callable) : Workbench :=
  { w with drafts := w.drafts.modify id fun d => { d with compiled := some function } }

section

variable {m : Type → Type} [Monad m] [MonadStateOf Workbench m]

/-- The function of a draft, asked of a backend if it has none yet. A backend takes source to a
function, and may keep a state besides the workbench. -/
def compileWith (backend : String → m Callable) (id : DraftId) : m Callable := do
  let w ← get
  match (w.draft id).compiled with
  | some function => return function
  | none =>
    let function ← backend (w.source id)
    modify (·.setCompiled id function)
    return function

/-- The function of a draft, from the draft itself before a backend is turned to. -/
def compileBy (backend : String → m Callable) (id : DraftId) : m Callable := do
  match ((← get).draft id).compiled with
  | some function => return function
  | none => compileWith backend id

end

/-- The backend that compiles a source in a new realm of its own. -/
def compileAlone (source : String) : Run Callable := do
  let r ← modifyGet (·.addRealm defaultMaxDepth)
  return (← ExprLang.compile r source).callable

/-- The function of a draft. -/
def Build.compile (id : DraftId) : Build Callable :=
  compileBy (fun source => compileAlone source) id

/-- Calls the function of a draft. -/
def Build.call (id : DraftId) (args : Arguments) : Build Value := do
  let function ← Build.compile id
  (function.call args : Run Value)

end ExprLang
