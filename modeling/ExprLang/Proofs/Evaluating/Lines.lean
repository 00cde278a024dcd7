import ExprLang.Proofs.Evaluating.Entering
import ExprLang.Session

/-!
# Whole evaluations

An expression is evaluated with room for all the calls that the store allows (`Expr.run`). For a
line this is done where no call is in progress, and only a definition does anything after that, and
only with a value (`lineRuns_evalLine`).
-/

namespace ExprLang

/-! ## Expressions -/

/-- The value of an expression in a realm, with the given variables around and with room for all the
calls that the store allows. -/
def Expr.run (r : RealmId) (scope : Scope) (e : Expr) : Eval Value := fun s =>
  eval (callValue (s.callsLeft + 1)) r scope e s

/-- The store in which a line is evaluated: no call of its realm is in progress. -/
def Store.atRest (s : Store) (r : RealmId) : Store :=
  s.modifyRealm r fun realm => { realm with depth := 0 }

/-- An evaluation runs the expression in a realm at rest. -/
theorem evaluate_eq (r : RealmId) (e : Expr) (s : Store) :
    evaluate r e s = e.run r [] (s.atRest r) :=
  rfl

/-! ## Lines -/

/-- The result of an evaluation as that of a run of source text. -/
def asRun {α : Type} : EStateM.Result RuntimeError Store α → EStateM.Result Failure Store α
  | .ok a s => .ok a s
  | .error e s => .error (.runtime e) s

theorem run_lift (act : Eval Value) (s : Store) : (liftM act : Run Value) s = asRun (act s) := by
  unfold asRun
  rfl

/-- A source is parsed, then evaluated. -/
theorem evalSource_eq (r : RealmId) (source : String) (s : Store) : evalSource r source s =
    match parse source with
    | .error e => .error (.syntactic e) s
    | .ok e => asRun (evaluate r e s) := by
  unfold evalSource
  cases parse source with
  | error e => rfl
  | ok e =>
    have hparsed : (liftM (Except.ok e : Except SyntaxError Expr) : Run Expr) s = .ok e s := rfl
    rw [run_ok hparsed, run_lift]

/-- A line is parsed, then evaluated, and defined if it says so. -/
theorem evalLine_eq (r : RealmId) (line : String) (s : Store) : evalLine r line s =
    match parseLine line with
    | .error e => .error (.syntactic e) s
    | .ok .blank => .ok .nothing s
    | .ok (.definition name e) =>
      match evaluate r e s with
      | .ok v s => .ok (.defined name) (s.modifyRealm r (·.define name v))
      | .error e s => .error (.runtime e) s
    | .ok (.expr e) =>
      match evaluate r e s with
      | .ok v s => .ok (.value v) s
      | .error e s => .error (.runtime e) s := by
  unfold evalLine
  cases parseLine line with
  | error e => rfl
  | ok parsed =>
    refine (run_ok (show (liftM (Except.ok parsed) : Run Line) s = .ok parsed s from rfl)).trans ?_
    cases parsed with
    | blank => rfl
    | definition name e | expr e =>
      have hlift := run_lift (evaluate r e) s
      dsimp only
      cases hrun : evaluate r e s with
      | ok v s' =>
        rw [hrun] at hlift
        exact run_ok hlift
      | error e' s' =>
        rw [hrun] at hlift
        exact run_error hlift

/-- What a line may do and come to: it cannot be read, says nothing, makes a definition, has a value
or fails. -/
inductive LineRuns (r : RealmId) (line : String) (s : Store) :
    EStateM.Result Failure Store Outcome → Prop
  | unread {e : SyntaxError} : parseLine line = .error e →
    LineRuns r line s (.error (.syntactic e) s)
  | blank : parseLine line = .ok .blank → LineRuns r line s (.ok .nothing s)
  | defined {name : String} {e : Expr} {v : Value} {s' : Store} :
    parseLine line = .ok (.definition name e) → evaluate r e s = .ok v s' →
    LineRuns r line s (.ok (.defined name) (s'.modifyRealm r (·.define name v)))
  | value {e : Expr} {v : Value} {s' : Store} :
    parseLine line = .ok (.expr e) → evaluate r e s = .ok v s' →
    LineRuns r line s (.ok (.value v) s')
  | failed {e : Expr} {err : RuntimeError} {s' : Store} : evaluate r e s = .error err s' →
    LineRuns r line s (.error (.runtime err) s')

/-- What a line comes to is one of the four outcomes. -/
theorem lineRuns_evalLine (r : RealmId) (line : String) (s : Store) :
    LineRuns r line s (evalLine r line s) := by
  rw [evalLine_eq]
  cases hparsed : parseLine line with
  | error e => exact .unread hparsed
  | ok parsed =>
    cases parsed with
    | blank => exact .blank hparsed
    | definition name e =>
      dsimp only
      cases hrun : evaluate r e s with
      | ok v s' => exact .defined hparsed hrun
      | error err s' => exact .failed hrun
    | expr e =>
      dsimp only
      cases hrun : evaluate r e s with
      | ok v s' => exact .value hparsed hrun
      | error err s' => exact .failed hrun

end ExprLang
