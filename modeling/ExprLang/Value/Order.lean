import ExprLang.Value.Equality

/-!
# Order of values

Real numbers, strings, tuples and lists are ordered, the last two by their first items that
differ and then by length. Strings are ordered by code point. Two values of types without a
common order cannot be compared, and the error names the operator that asked.
-/

namespace ExprLang

/-- The order of two strings. -/
def textOrdering (a b : String) : Ordering :=
  if a = b then .eq else if a < b then .lt else .gt

mutual
/-- The order of two values, for the operator `symbol`. Floats that are no numbers have none. -/
def Value.order (symbol : String) : Value → Value → Except RuntimeError (Option Ordering)
  | .str a, .str b => .ok (some (textOrdering a b))
  | .tuple _ a, .tuple _ b => Value.orderItems symbol a b
  | .list _ a, .list _ b => Value.orderItems symbol a b
  | a, b =>
    match a.number?, b.number? with
    | some x, some y =>
      match x.ordering? y with
      | .some o => .ok o
      | .none => .error (.type (.notOrdered symbol a.typeName b.typeName))
    | _, _ => .error (.type (.notOrdered symbol a.typeName b.typeName))

/-- The order of two lists of values: that of the first items that are not equal, or else that
of the lengths. -/
def Value.orderItems (symbol : String) :
    List Value → List Value → Except RuntimeError (Option Ordering)
  | [], [] => .ok (some .eq)
  | [], _ :: _ => .ok (some .lt)
  | _ :: _, [] => .ok (some .gt)
  | a :: as, b :: bs => if a.eq b then Value.orderItems symbol as bs else a.order symbol b
end

end ExprLang
