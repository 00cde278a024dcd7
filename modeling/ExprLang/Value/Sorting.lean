import ExprLang.Value.Order

/-!
# Sorting by keys

Items are sorted by insertion: each is compared with those before it, from the last on, until one
stays in front of it (`insertionSort`). Items with equal keys keep their order, also when the order
of keys is reversed. The first comparison that fails ends the sort with its error.

Keys of several types, and floats among which there may be a NaN, need not be in any one order, and
what becomes of them depends on which are compared. A library sort leaves that open, and may refuse
such keys by a panic; that they are compared as insertion compares them, and end in some order or in
the error of the first comparison that fails, is a choice made here. Integers are in one order and
so are texts; for them every stable sort gives the same, and they are sorted by merging.
-/

namespace ExprLang

/-- Whether an item has to move in front of an earlier one, by their keys. -/
def movesBefore (reverse : Bool) (later earlier : Value) : Except RuntimeError Bool := do
  let order ← if reverse then earlier.order "<" later else later.order "<" earlier
  return order == some .lt

/-! ## Insertion -/

/-- A sorted list with an item put in. The last item stands first in it. -/
def insertSorted {α : Type} (reverse : Bool) (item : Value × α) :
    List (Value × α) → Except RuntimeError (List (Value × α))
  | [] => return [item]
  | last :: before => do
    if ← movesBefore reverse item.1 last.1 then
      return last :: (← insertSorted reverse item before)
    else
      return item :: last :: before

/-- Items put one after the other into a sorted list. -/
def insertionSort {α : Type} (reverse : Bool) (items : List (Value × α)) :
    Except RuntimeError (List (Value × α)) := do
  let sorted ← items.foldlM (fun sorted item => insertSorted reverse item sorted) []
  return sorted.reverse

/-! ## Merging -/

/-- Whether a key may stay in front of a later one. -/
def staysBefore (reverse : Bool) (earlier later : Value) : Bool :=
  match movesBefore reverse later earlier with
  | .ok moves => !moves
  | .error _ => true

/-- Whether keys are all integers or all texts. -/
def inOneOrder (keys : List Value) : Bool :=
  keys.all (·.int?.isSome) || keys.all Value.isStr

/-- Items with keys, sorted by their keys. For keys that are in no one order, or of which two cannot
be compared, the result is a choice made here: a library sort leaves the order open there, and may
panic. -/
def sortByKey {α : Type} (reverse : Bool) (items : List (Value × α)) :
    Except RuntimeError (List (Value × α)) :=
  if inOneOrder (items.map (·.1)) then
    return items.mergeSort fun a b => staysBefore reverse a.1 b.1
  else insertionSort reverse items

end ExprLang
