import ExprLang.Builtin.Method

/-!
# Evaluation

`eval` gives the value of an expression by recursion on the expression. Calls leave that
recursion: `callWith` runs a lambda, builtin function or method, and the calls made on its way
are handed in as a parameter. `callValue n` ties the knot with room for `n` calls inside of one
another. As every call is counted by its realm, the store bounds the room that is needed
(`Store.callsLeft`), and no evaluation runs out of it.
-/

namespace ExprLang

/-- How a value is called from code of a realm. -/
abbrev RealmCaller := RealmId → Caller

/-! ## Parts of evaluation -/

/-- The value of a literal. -/
def Literal.eval : Literal → Value
  | .none => .none
  | .bool b => .bool b
  | .int n => .int n
  | .float x => .float x
  | .imaginary x => .complex ⟨0, x⟩
  | .str s => .str s

/-- The value of a name: a variable, a global definition or a builtin function. -/
def Eval.lookup (r : RealmId) (scope : Scope) (name : String) : Eval Value := do
  match scope.lookup name with
  | some v => return v
  | none =>
    match ((← get).realm r).globals.lookup name with
    | some v => return v
    | none =>
      match Builtin.ofName? name with
      | some b => return .builtin b
      | none => throw (.unbound name)

/-- The values that a starred argument hands over. -/
def Eval.starItems (v : Value) : Eval (List Value) := fun s =>
  match Eval.iterate v s with
  | .ok items s => .ok items s
  | .error _ s => .error (.type (.starNotIterable v.typeName)) s

/-- Keywords with one more at the end, which must be new. -/
def Keywords.add (keywords : Keywords) (name : String) (value : Value) :
    Except RuntimeError Keywords :=
  if keywords.any (·.1 == name) then .error (.type (.repeatedKeyword name))
  else .ok (keywords ++ [(name, value)])

/-- Keywords with an entry of a dict added. -/
def Keywords.addEntry (keywords : Keywords) (entry : Value × Value) :
    Except RuntimeError Keywords :=
  match entry.1 with
  | .str name => keywords.add name entry.2
  | _ => .error (.type .keywordNotString)

/-- Keywords with the entries of a dict added. -/
def Keywords.addEntries (keywords : Keywords) (v : Value) : Except RuntimeError Keywords :=
  match v with
  | .dict _ entries => entries.foldlM Keywords.addEntry keywords
  | v => .error (.type (.doubleStarNotDict v.typeName))

/-! ## Evaluation -/

section

variable (call : RealmCaller) (r : RealmId) (scope : Scope)

mutual
/-- The value of an expression in a realm, with the given variables around. -/
def eval : Expr → Eval Value
  | .literal value => return value.eval
  | .var name => Eval.lookup r scope name
  | .tuple items => do Eval.newTuple (← evalItems items)
  | .list items => do Eval.newList (← evalItems items)
  | .dict entries => do Eval.newDict (← evalEntries [] entries)
  | .unary op operand => do (← eval operand).unaryOp op
  | .binary op left right => do
    let a ← eval left
    let b ← eval right
    a.binaryOp (← Eval.freshId) op b
  | .bool op left right => do
    let a ← eval left
    match op, a.isTruthy with
    | .and, false | .or, true => return a
    | _, _ => eval right
  | .not operand => return .bool !(← eval operand).isTruthy
  | .compare first links => do
    let a ← eval first
    return .bool (← evalLinks a links)
  | .conditional test yes no => do
    if (← eval test).isTruthy then eval yes else eval no
  | .attribute target name => do
    let v ← eval target
    v.attribute (← Eval.freshId) name
  | .item target index => do
    let v ← eval target
    v.getItem (← eval index)
  | .slice target lower upper step => do
    let v ← eval target
    let lower ← evalOption lower
    let upper ← evalOption upper
    let step ← evalOption step
    Value.getSlice (← Eval.freshId) v (lower.getD .none) (upper.getD .none) (step.getD .none)
  | .call callee args => do
    let f ← eval callee
    let args ← evalArguments [] args
    call r f args
  | .lambda params body => do
    let (defaults, keywordDefaults) ← evalParams params
    return .function (← Eval.freshId) ⟨params, body, defaults, keywordDefaults, scope, r⟩

/-- The values of expressions, from left to right. -/
def evalItems : List Expr → Eval (List Value)
  | [] => return []
  | e :: es => do
    let v ← eval e
    return v :: (← evalItems es)

/-- The value of an expression that may be absent. -/
def evalOption : Option Expr → Eval (Option Value)
  | none => return none
  | some e => return some (← eval e)

/-- The entries of a dict display, put in after those already there. A key is checked before its
value is looked at. -/
def evalEntries (entries : List (Value × Value)) :
    List (Expr × Expr) → Eval (List (Value × Value))
  | [] => return entries
  | (key, value) :: rest => do
    let k ← eval key
    discard k.hash
    let v ← eval value
    evalEntries (insertEntry k v entries) rest

/-- Whether all links of a comparison chain hold. The first that does not ends the chain. -/
def evalLinks (a : Value) : List (Comparison × Expr) → Eval Bool
  | [] => return true
  | (link, e) :: rest => do
    let b ← eval e
    if ← Eval.holds link a b then evalLinks b rest else return false

/-- The arguments of a call, with their keywords after those already there. -/
def evalArguments (keywords : Keywords) : List (Argument Expr) → Eval Arguments
  | [] => return ⟨[], keywords⟩
  | .positional e :: rest => do
    let v ← eval e
    let args ← evalArguments keywords rest
    return { args with positional := v :: args.positional }
  | .star e :: rest => do
    let v ← eval e
    let items ← Eval.starItems v
    let args ← evalArguments keywords rest
    return { args with positional := items ++ args.positional }
  | .keyword name e :: rest => do
    let v ← eval e
    evalArguments (← keywords.add name v) rest
  | .doubleStar e :: rest => do
    let v ← eval e
    evalArguments (← keywords.addEntries v) rest

/-- The defaults of parameters. -/
def evalDefaults : List (Param Expr) → Eval (List (Option Value))
  | [] => return []
  | ⟨_, default⟩ :: rest => do
    let v ← evalOption default
    return v :: (← evalDefaults rest)

/-- The defaults of positional and of keyword-only parameters. -/
def evalParams : Params Expr → Eval (List (Option Value) × List (Option Value))
  | ⟨positional, _, keywordOnly, _⟩ => do
    let defaults ← evalDefaults positional
    return (defaults, ← evalDefaults keywordOnly)
end

end

/-! ## Calls -/

/-- A lambda called: its parameters get the arguments, and its body is evaluated under its own
realm. -/
def Closure.run (call : RealmCaller) (c : Closure Value) (args : Arguments) : Eval Value := do
  let frame ← c.bind (← Eval.freshId) (← Eval.freshId) args
  eval call c.home (frame ++ c.scope) c.body

/-- A value called from code of a realm. The calls that this makes go through `call`. A lambda
counts as a call of its own realm, anything else as one of the realm that calls. -/
def callWith (call : RealmCaller) (r : RealmId) (f : Value) (args : Arguments) : Eval Value :=
  match f with
  | .function _ c => Eval.within c.home (c.run call args)
  | .builtin b => Eval.within r (b.run (call r) r args)
  | .method _ m => Eval.within r (m.method.run r m.receiver args)
  | v => throw (.type (.notCallable v.typeName))

/-- A value called with room for fewer than `n` calls inside of one another. -/
def callValue : (n : Nat) → RealmCaller
  | 0 => fun _ _ _ => throw .tooManyCalls
  | n + 1 => callWith (callValue n)

/-- The value of an expression in a realm, where no call is in progress. -/
def evaluate (r : RealmId) (e : Expr) : Eval Value := do
  modify (·.modifyRealm r fun realm => { realm with depth := 0 })
  eval (callValue ((← get).callsLeft + 1)) r [] e

end ExprLang
