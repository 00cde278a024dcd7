import ExprLang.Error
import ExprLang.Evaluator
import ExprLang.Expr.Parser

/-!
# Running source text

A source is parsed and then evaluated, and fails with the error of whichever step fails
(`Failure`). `evalLine` also makes definitions: it is the only step that changes the globals of
a realm, and only when the defined value was found. `compile` takes a source that is a lambda to
the function it stands for.
-/

namespace ExprLang

/-- A run of source text: it changes a store and ends in a result or a failure. -/
abbrev Run := EStateM Failure Store

instance : MonadLift (Except SyntaxError) Run where
  monadLift
    | .ok a => pure a
    | .error e => throw (.syntactic e)

instance : MonadLift Eval Run where
  monadLift act s :=
    match act s with
    | .ok a s => .ok a s
    | .error e s => .error (.runtime e) s

/-- The value of an expression given as text. -/
def evalSource (r : RealmId) (source : String) : Run Value := do
  let e ← parse source
  evaluate r e

/-! ## Lines -/

/-- What a line came to. -/
inductive Outcome where
  | nothing
  | defined (name : String)
  | value (v : Value)

/-- Makes a global definition. -/
def define (r : RealmId) (name : String) (value : Value) : Run Unit :=
  modify (·.modifyRealm r (·.define name value))

/-- Evaluates a line: a definition, an expression, or nothing. -/
def evalLine (r : RealmId) (line : String) : Run Outcome := do
  let parsed ← parseLine line
  match parsed with
  | .blank => return .nothing
  | .definition name e =>
    let v ← evaluate r e
    define r name v
    return .defined name
  | .expr e => return .value (← evaluate r e)

/-! ## Functions -/

/-- The function that a source stands for, which has to be a lambda. -/
def compile (r : RealmId) (source : String) : Run (Closure Value) := do
  let e ← parse source
  if !e.isLambda then throw (.syntactic ⟨0, .notLambda⟩)
  let v ← evaluate r e
  match v with
  | .function _ c => return c
  | _ => throw (.syntactic ⟨0, .notLambda⟩)

/-- A compiled function called from outside, where no call is in progress. -/
def Closure.call (c : Closure Value) (args : Arguments) : Eval Value := do
  Eval.within c.home (c.run (callValue ((← get).callsLeft)) args)

/-- What a source is compiled to: something to be called from outside, with the names of its
parameters. -/
structure Callable where
  params : List String
  call : Arguments → Eval Value

/-- A function of the language as something to be called. -/
def Closure.callable (c : Closure Value) : Callable where
  params := c.params.names
  call := c.call

end ExprLang
