import ExprLang.Value.Operator

/-!
# The store of an evaluation

What an evaluation reads and changes: realms, which hold the global definitions and count the
calls in progress; the items that iterators have left; and the identities given out. An
evaluation that fails keeps the changes made before.

`Eval.within` is the only way to make a call. It is refused once a realm has as many calls in
progress as it allows, and the count is what it was when the call is over, whether it ended in
a value or in an error.
-/

namespace ExprLang

/-! ## Realms -/

/-- A set of global definitions, with what is known of the calls made under it. -/
structure Realm where
  /-- How many calls may be in progress. -/
  maxDepth : Nat
  /-- How many calls are in progress. -/
  depth : Nat
  /-- Whether an interrupt has been asked for. -/
  interrupted : Bool
  globals : Scope

/-- A realm without definitions. -/
def Realm.empty (maxDepth : Nat) : Realm where
  maxDepth := maxDepth
  depth := 0
  interrupted := false
  globals := []

/-- The number of calls that a realm allows unless told otherwise. -/
def defaultMaxDepth : Nat := 1000

/-- The realm with `name` defined as `value`. -/
def Realm.define (r : Realm) (name : String) (value : Value) : Realm :=
  { r with globals := (name, value) :: r.globals.filter (·.1 != name) }

/-! ## The store -/

/-- Everything that an evaluation may change, and where it finds values in memory. -/
structure Store where
  realms : List Realm
  /-- The items left to each iterator. -/
  iterators : Array (List Value)
  /-- The next identity to give out. -/
  fresh : Identity
  /-- Where the values are that are known by their identity. -/
  addresses : Addresses

/-- Some addresses, for a store to begin with: far from zero, sixteen apart, and all different. -/
def Addresses.apart : Addresses where
  ofIdentity id := Int64.ofNat (Nat.pow 2 46 + 32 * id)
  ofIterator id := Int64.ofNat (Nat.pow 2 46 + 32 * id + 16)

/-- The store in which nothing has been made. -/
def Store.empty (addresses : Addresses := .apart) : Store where
  realms := []
  iterators := #[]
  fresh := 0
  addresses := addresses

/-- A realm, by its place. -/
def Store.realm (s : Store) (r : RealmId) : Realm :=
  s.realms[r]?.getD (Realm.empty 0)

/-- The store with a realm changed. -/
def Store.modifyRealm (s : Store) (r : RealmId) (f : Realm → Realm) : Store :=
  { s with realms := s.realms.modify r f }

/-- A new realm, and the store that has it. -/
def Store.addRealm (s : Store) (maxDepth : Nat) : RealmId × Store :=
  (s.realms.length, { s with realms := s.realms ++ [Realm.empty maxDepth] })

/-- The items left to an iterator. -/
def Store.itemsLeft (s : Store) (id : IteratorId) : List Value :=
  s.iterators[id]?.getD []

/-- The number of calls that may still be begun inside of one another, all realms taken
together. -/
def Store.callsLeft (s : Store) : Nat :=
  (s.realms.map fun r => r.maxDepth - r.depth).foldr (· + ·) 0

/-! ## Evaluations -/

/-- An evaluation: it changes a store and ends in a value or an error. -/
abbrev Eval := EStateM RuntimeError Store

instance : MonadLift (Except RuntimeError) Eval where
  monadLift
    | .ok a => pure a
    | .error e => throw e

namespace Eval

/-- A new identity. -/
def freshId : Eval Identity := do
  let s ← get
  set { s with fresh := s.fresh + 1 }
  return s.fresh

/-- Where functions and iterators are. -/
def addresses : Eval Addresses := do
  return (← get).addresses

/-- A new tuple. -/
def newTuple (items : List Value) : Eval Value :=
  return .tuple (← freshId) items

/-- A new list. -/
def newList (items : List Value) : Eval Value :=
  return .list (← freshId) items

/-- A new dict. -/
def newDict (entries : List (Value × Value)) : Eval Value :=
  return .dict (← freshId) entries

/-! ## Calls in progress -/

/-- Stops where an interrupt has been asked for, and takes note that it has been obeyed. -/
def poll (r : RealmId) : Eval Unit := do
  if ((← get).realm r).interrupted then
    modify (·.modifyRealm r fun realm => { realm with interrupted := false })
    throw .interrupted

/-- Begins a call. -/
def enter (r : RealmId) : Eval Unit := do
  poll r
  let realm := (← get).realm r
  if realm.maxDepth < realm.depth + 1 then
    throw .tooManyCalls
  modify (·.modifyRealm r fun realm => { realm with depth := realm.depth + 1 })

/-- The store after a call of a realm is over. -/
def left (r : RealmId) (s : Store) : Store :=
  s.modifyRealm r fun realm => { realm with depth := realm.depth - 1 }

/-- An evaluation as a call of a realm. -/
def within {α : Type} (r : RealmId) (act : Eval α) : Eval α := do
  enter r
  fun s =>
    match act s with
    | .ok a s => .ok a (left r s)
    | .error e s => .error e (left r s)

/-! ## Iterators -/

/-- A new iterator over the given items. -/
def newIterator (items : List Value) : Eval Value := do
  let s ← get
  set { s with iterators := s.iterators.push items }
  return .iterator s.iterators.size

/-- Takes all the items left to an iterator. -/
def takeAll (id : IteratorId) : Eval (List Value) := do
  let s ← get
  set { s with iterators := s.iterators.modify id fun _ => [] }
  return s.itemsLeft id

/-- Takes the next item of an iterator, if one is left. -/
def takeNext? (id : IteratorId) : Eval (Option Value) := do
  let s ← get
  set { s with iterators := s.iterators.modify id List.tail }
  return (s.itemsLeft id).head?

/-- The items of a value, taken away from it if it is an iterator. -/
def iterate (v : Value) : Eval (List Value) :=
  match v with
  | .iterator id => takeAll id
  | v =>
    match v.items? with
    | some items => pure items
    | none => throw (.type (.notIterable v.typeName))

/-- Whether `item` is in a container: a part of a string, a key of a dict, or equal to one of
the items. -/
def contains (container item : Value) : Eval Bool := do
  match container with
  | .str s =>
    match item with
    | .str part => return occursIn part.toList s.toList
    | _ => throw (.type (.substringOperand item.typeName))
  | .dict _ entries =>
    discard item.hash
    return (valueUnder? entries item).isSome
  | .tuple .. | .list .. | .iterator _ => return (← iterate container).any (·.eq item)
  | _ => throw (.type (.noMembership container.typeName))

/-- Whether a link of a comparison chain holds between two values. -/
def holds (link : Comparison) (a b : Value) : Eval Bool := do
  match link.holds? a b with
  | some result => result
  | none => return (← contains b a) == (link != .notIn)

end Eval

end ExprLang
