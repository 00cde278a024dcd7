import ExprLang.Text.Search
import ExprLang.Value.Equality
import ExprLang.Value.Printer

/-!
# Items of values

Strings, tuples, lists and dicts hold items: characters, values, keys. An index of a sequence
counts from the end when it is negative (`itemPlace?`). A slice takes the places from one bound
to before another in steps, with bounds out of range clamped to the ends (`sliceEnds`,
`placesFrom`). Places are words, and the step is added to them without a check: a step that is
large enough makes the program panic.
-/

namespace ExprLang

/-! ## Items -/

/-- The items of a value that holds them in itself. -/
def Value.items? : Value → Option (List Value)
  | .str s => some (s.toList.map Value.ofChar)
  | .tuple _ items => some items
  | .list _ items => some items
  | .dict _ entries => some (entries.map (·.1))
  | _ => Option.none

/-- The number of items. -/
def Value.size : Value → Except RuntimeError Nat
  | .str s => .ok s.length
  | .tuple _ items => .ok items.length
  | .list _ items => .ok items.length
  | .dict _ entries => .ok entries.length
  | v => .error (.type (.noLength v.typeName))

/-! ## Indexing -/

/-- The place that an index means among `len` items. -/
def itemPlace? (index : Int) (len : Nat) : Option Nat :=
  let place := if index < 0 then index + len else index
  if 0 ≤ place ∧ place < len then some place.toNat else none

/-- The item of a sequence at an index. -/
def itemAt (v index : Value) (items : List Value) : Except RuntimeError Value :=
  match index.int? with
  | none => .error (.type (.badIndex v.typeName index.typeName))
  | some i =>
    match (itemPlace? i.toInt items.length).bind (items[·]?) with
    | some item => .ok item
    | none => .error (.index v.typeName)

/-- The item at an index, or the value under a key. -/
def Value.getItem (v index : Value) : Except RuntimeError Value :=
  match v with
  | .dict _ entries => do
    let _ ← index.hash
    match valueUnder? entries index with
    | .some value => .ok value
    | .none => .error (.key index.text)
  | .str s => itemAt v index (s.toList.map Value.ofChar)
  | .tuple _ items => itemAt v index items
  | .list _ items => itemAt v index items
  | _ => .error (.type (.notSubscriptable v.typeName))

/-! ## Slicing -/

/-- A bound among `len` items, kept from `least` to `greatest`. -/
def clampBound (len : Nat) (least greatest bound : Int) : Int :=
  if bound < 0 then max (bound + len) least else min bound greatest

/-- The place where a slice starts, and that before which it stops. -/
def sliceEnds (len : Nat) (lower upper : Option Int) (step : Int) : Int × Int :=
  if 0 < step then
    (lower.elim 0 (clampBound len 0 len), upper.elim len (clampBound len 0 len))
  else
    (lower.elim (len - 1) (clampBound len (-1) (len - 1)),
      upper.elim (-1) (clampBound len (-1) (len - 1)))

/-- Whether a place comes before another in the direction of a step. -/
def IsBefore (step place stop : Int) : Prop :=
  if 0 < step then place < stop else stop < place

instance (step place stop : Int) : Decidable (IsBefore step place stop) := by
  unfold IsBefore; infer_instance

/-- Whether a place near `len` items fits in a word. Those of the items and the one at their end do,
as the number of items is a word. -/
def PlaceFits (len : Nat) (place : Int) : Prop :=
  place ≤ len ∨ InRange place

instance (len : Nat) (place : Int) : Decidable (PlaceFits len place) := by
  unfold PlaceFits; infer_instance

/-- How far it is from a place to one that it comes before. -/
def placesLeft (step place stop : Int) : Nat :=
  (if 0 < step then stop - place else place - stop).toNat

theorem placesLeft_add_lt {step place stop : Int} (hstep : step ≠ 0)
    (hbefore : IsBefore step place stop) :
    placesLeft step (place + step) stop < placesLeft step place stop := by
  unfold IsBefore at hbefore
  unfold placesLeft
  split at hbefore
  · next hpos =>
    simp only [if_pos hpos]
    omega
  · next hpos =>
    simp only [if_neg hpos]
    omega

/-- The places from `place` on that come before `stop`, put after those that are there already. The
step is added once more after the last of them, and nothing looks whether the sum fits. -/
def placesFrom (len : Nat) (stop step place : Int) (places : Array Nat) :
    Except RuntimeError (Array Nat) :=
  if _h : step ≠ 0 ∧ IsBefore step place stop then
    if PlaceFits len (place + step) then
      placesFrom len stop step (place + step) (places.push place.toNat)
    else .error (.panic .addition)
  else .ok places
termination_by placesLeft step place stop
decreasing_by exact placesLeft_add_lt _h.1 _h.2

/-- The places of a slice of `len` items. -/
def slicePlaces (len : Nat) (lower upper : Option Int) (step : Int) :
    Except RuntimeError (List Nat) :=
  let (start, stop) := sliceEnds len lower upper step
  (placesFrom len stop step start #[]).map Array.toList

/-- The items at the given places. -/
def itemsAt {α : Type} (items : List α) (places : List Nat) : List α :=
  let held := items.toArray
  places.filterMap fun i => held[i]?

/-- A bound or step of a slice. `None` leaves it open. -/
def Value.sliceBound : Value → Except RuntimeError (Option Int)
  | .none => .ok Option.none
  | v =>
    match v.int? with
    | .some i => .ok (some i.toInt)
    | .none => .error (.type .badSliceIndex)

/-- The items of a sequence at the given places, as a new value known by `id`. -/
def Value.takenAt (id : Identity) (v : Value) (places : List Nat) : Except RuntimeError Value :=
  match v with
  | .str s => .ok (.str (String.ofList (itemsAt s.toList places)))
  | .tuple _ items => .ok (.tuple id (itemsAt items places))
  | .list _ items => .ok (.list id (itemsAt items places))
  | _ => .error (.type (.notSubscriptable v.typeName))

/-- The slice of a sequence, a new value known by `id`. The places are worked out before the type of
the value is looked at. -/
def Value.getSlice (id : Identity) (v lower upper step : Value) : Except RuntimeError Value := do
  let step := (← step.sliceBound).getD 1
  if step = 0 then throw (.value .zeroStep)
  let len ← v.size
  let lower ← lower.sliceBound
  let upper ← upper.sliceBound
  v.takenAt id (← slicePlaces len lower upper step)

/-! ## Repetition -/

/-- The most items that a repetition may have. -/
def maxRepetition : Nat := Nat.pow 2 24

/-- How often `len` items are to be repeated. Nothing needs no repetition. -/
def repetitions (len : Nat) (count : Int64) : Except RuntimeError Nat :=
  let times := count.toInt.toNat
  if maxRepetition < len * times then .error (.overflow .repetition)
  else .ok (if len = 0 then 0 else times)

/-- The items repeated. -/
def repeatItems {α : Type} (items : List α) (times : Nat) : List α :=
  (List.replicate times items).flatten

/-- A sequence repeated, a new value known by `id`. What is no sequence is not repeated. -/
def Value.repeat? (id : Identity) (v : Value) (count : Int64) :
    Option (Except RuntimeError Value) :=
  match v with
  | .str s =>
    some ((repetitions s.length count).map fun times => .str (times.repeat (· ++ s) ""))
  | .tuple _ items =>
    some ((repetitions items.length count).map fun times => .tuple id (repeatItems items times))
  | .list _ items =>
    some ((repetitions items.length count).map fun times => .list id (repeatItems items times))
  | _ => Option.none

end ExprLang
