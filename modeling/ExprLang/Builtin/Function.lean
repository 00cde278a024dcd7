import ExprLang.Arguments
import ExprLang.Builtin.Conversion
import ExprLang.Store
import ExprLang.Value.Sorting

/-!
# What builtin functions do

`Builtin.run` is a builtin function applied to the arguments of a call. Most bind them to the
parameters of their signature; `min` and `max` take any number of values instead. Functions that
call back, namely those with a key, do so through the caller handed to them. Loops over items
look for an interrupt before each item.
-/

namespace ExprLang

/-- How a function calls a value. -/
abbrev Caller := Value → Arguments → Eval Value

/-! ## Signatures -/

/-- The parameters of a builtin function. -/
def Builtin.signature (b : Builtin) : Signature :=
  let (params, required) : List String × Nat :=
    match b with
    | .abs => (["x"], 1)
    | .bool => (["x"], 0)
    | .complex => (["real", "imag"], 0)
    | .divmod => (["x", "y"], 2)
    | .float => (["x"], 0)
    | .hash => (["obj"], 1)
    | .hex | .oct => (["number"], 1)
    | .int => (["x", "base"], 0)
    | .iter => (["object"], 1)
    | .len => (["obj"], 1)
    | .list | .tuple => (["iterable"], 0)
    | .max | .min => (["iterable"], 1)
    | .next => (["iterator", "default"], 1)
    | .pow => (["base", "exp", "mod"], 2)
    | .reversed => (["sequence"], 1)
    | .round => (["number", "ndigits"], 1)
    | .sorted => (["iterable", "key", "reverse"], 1)
    | .str => (["object"], 0)
    | .sum => (["iterable", "start"], 1)
  ⟨b.name, params, required⟩

/-- The arguments bound to the parameters of a signature, by place. -/
abbrev Bound := List (Option Value)

/-- The argument at a place, if it was given. -/
def Bound.value? (given : Bound) (i : Nat) : Option Value :=
  given[i]?.join

/-- The argument at a place, or `None`. -/
def Bound.value (given : Bound) (i : Nat) : Value :=
  (given.value? i).getD .none

/-! ## Functions over items -/

/-- The error of `divmod` for operands that cannot be divided: it names the function. -/
def asDivmod : RuntimeError → RuntimeError
  | .type (.unsupportedOperands _ left right) =>
    .type (.unsupportedOperands "divmod()" left right)
  | e => e

namespace Eval

/-- The tuple of quotient and remainder. -/
def divmod (x y : Value) : Eval Value := do
  let quotient ← (x.binaryOp (← freshId) .floorDiv y).mapError asDivmod
  let remainder ← x.binaryOp (← freshId) .mod y
  newTuple [quotient, remainder]

/-- The sum of items, added one by one to `start`. Strings are not summed. -/
def sum (r : RealmId) (items : List Value) (start : Value) : Eval Value := do
  if start.isStr then throw (.type .sumOfStrings)
  items.foldlM (fun total item => do
    poll r
    total.binaryOp (← freshId) .add item) start

/-- The next item of an iterator, or else the default. -/
def nextItem (v : Value) (default : Option Value) : Eval Value := do
  match v with
  | .iterator id =>
    match (← takeNext? id) <|> default with
    | some item => return item
    | none => throw .exhausted
  | v => throw (.type (.notIterator v.typeName))

/-- An iterator from the last item to the first. -/
def reversed (v : Value) : Eval Value :=
  match v.items? with
  | some items => newIterator items.reverse
  | none => throw (.type (.notReversible v.typeName))

/-! ## Functions with a key -/

/-- A key function handed over, where `None` is none. -/
def givenKey (key : Value) : Option Value :=
  if key.isNone then none else some key

/-- An item with what it is compared by: itself, or what the key function makes of it. -/
def withKey (call : Caller) (r : RealmId) (key : Option Value) (item : Value) :
    Eval (Value × Value) := do
  poll r
  match key with
  | none => return (item, item)
  | some f => return (← call f (.ofList [item]), item)

/-- The list of sorted items. -/
def sorted (call : Caller) (r : RealmId) (given : Bound) : Eval Value := do
  let items ← iterate (given.value 0)
  let keyed ← items.mapM (withKey call r (givenKey (given.value 1)))
  let sorted ← sortByKey ((given.value? 2).any Value.isTruthy) keyed
  newList (sorted.map (·.2))

end Eval

/-- The two ends of an order. -/
inductive Extreme where
  | greatest
  | least
  deriving DecidableEq, Repr

/-- The function that finds an extreme. -/
def Extreme.builtin : Extreme → Builtin
  | .greatest => .max
  | .least => .min

/-- The operator by which a candidate has to beat the best so far. -/
def Extreme.symbol : Extreme → String
  | .greatest => ">"
  | .least => "<"

/-- The order of a candidate to the best so far in which it wins. -/
def Extreme.winning : Extreme → Ordering
  | .greatest => .gt
  | .least => .lt

/-- The keyword arguments of an extreme: a key and a default. -/
structure ExtremeOptions where
  key : Option Value
  default : Option Value

/-- The options after a keyword. -/
def ExtremeOptions.give (function : String) (options : ExtremeOptions)
    (keyword : String × Value) : Except RuntimeError ExtremeOptions :=
  if keyword.1 = "key" then .ok { options with key := Eval.givenKey keyword.2 }
  else if keyword.1 = "default" then .ok { options with default := some keyword.2 }
  else .error (.type (.unexpectedKeyword function keyword.1))

namespace Eval

/-- The better of the best so far and an item, each with its key. The best so far stays unless
it is beaten. -/
def better (call : Caller) (r : RealmId) (key : Option Value) (e : Extreme)
    (best : Option (Value × Value)) (item : Value) : Eval (Option (Value × Value)) := do
  let candidate ← withKey call r key item
  match best with
  | none => return some candidate
  | some (bestKey, _) =>
    let order ← candidate.1.order e.symbol bestKey
    return if order == some e.winning then some candidate else best

/-- The items that an extreme is looked for in: those of the only argument, or else the
arguments, which allow no default. -/
def extremeItems (function : String) (default : Option Value) : List Value → Eval (List Value)
  | [] => throw (.type (.extremeArity function))
  | [v] => iterate v
  | vs => if default.isSome then throw (.type (.extremeDefault function)) else return vs

/-- The extreme item among the arguments of a call. -/
def extreme (call : Caller) (r : RealmId) (e : Extreme) (args : Arguments) : Eval Value := do
  let function := e.builtin.name
  let options ← (args.keywords.foldlM (ExtremeOptions.give function) ⟨none, none⟩ :
    Except RuntimeError ExtremeOptions)
  let items ← extremeItems function options.default args.positional
  let best ← items.foldlM (better call r options.key e) none
  match best.map (·.2) <|> options.default with
  | some item => return item
  | none => throw (.value (.emptySequence function))

end Eval

/-! ## Calls -/

/-- A builtin function applied to the arguments bound to its parameters. -/
def Builtin.apply (call : Caller) (r : RealmId) (b : Builtin) (given : Bound) : Eval Value := do
  let first := given.value 0
  let second := given.value 1
  match b with
  | .abs => first.magnitude
  | .bool => return .bool first.isTruthy
  | .complex => complexOfParts (given.value? 0) (given.value? 1)
  | .divmod => Eval.divmod first second
  | .float =>
    match given.value? 0 with
    | none => return .float 0
    | some v => v.toReal
  | .hash => return .int ((← first.hash) (← Eval.addresses))
  | .hex => first.inRadix 16 "0x"
  | .oct => first.inRadix 8 "0o"
  | .int =>
    match given.value? 0, given.value? 1 with
    | none, none => return .int 0
    | none, some _ => throw (.type .intMissingText)
    | some v, base => v.toInteger base
  | .iter =>
    match first with
    | .iterator id => return .iterator id
    | v => Eval.newIterator (← Eval.iterate v)
  | .len => return .int (Int64.ofNat (← first.size))
  | .list => Eval.newList (← ((given.value? 0).map Eval.iterate).getD (pure []))
  | .tuple => Eval.newTuple (← ((given.value? 0).map Eval.iterate).getD (pure []))
  | .next => Eval.nextItem first (given.value? 1)
  | .pow =>
    if (given.value 2).isNone then first.binaryOp (← Eval.freshId) .pow second
    else first.powMod second (given.value 2)
  | .reversed => Eval.reversed first
  | .round => first.rounded second
  | .sorted => Eval.sorted call r given
  | .str => return .str (((given.value? 0).map Value.plainText).getD "")
  | .sum => Eval.sum r (← Eval.iterate first) ((given.value? 1).getD (.int 0))
  | .max => Eval.extreme call r .greatest (.ofList [first])
  | .min => Eval.extreme call r .least (.ofList [first])

/-- A builtin function applied to the arguments of a call. -/
def Builtin.run (call : Caller) (r : RealmId) (b : Builtin) (args : Arguments) : Eval Value := do
  match b with
  | .max => Eval.extreme call r .greatest args
  | .min => Eval.extreme call r .least args
  | b =>
    if b = .sorted ∧ args.positional.length ≠ 1 then
      throw (.type (.sortedArity args.positional.length))
    b.apply call r (← b.signature.bind args)

end ExprLang
