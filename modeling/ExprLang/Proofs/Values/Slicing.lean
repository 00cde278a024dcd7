import ExprLang.Builtin.Function
import Mathlib.Tactic.Linarith
import Mathlib.Tactic.Ring

/-!
# Slices

A slice of a string, a tuple or a list has the items at the places `start`, `start + step`, `start +
2 * step` and so on that come before `stop` (`IsSlice`). A bound that is negative counts from the
end, and then each is moved into the range of places where a slice in that direction can start or
stop (`boundPlace`). So every place is that of an item (`place_of_isBefore`).

The step is added to each of these places, to the last one too, and nothing looks whether the sum
fits in a word. If each does (`StepsFit`) the loop collects the places (`placesFrom_of_stepsFit`),
and otherwise the program panics (`placesFrom_of_not_stepsFit`). A step down fits always, and so
does one of a single place (`stepsFit_of_le_one`).

The main statements are `getSlice_exact`, with what it means for the two slices at one bound, for
the items in reverse order and for single items, and `getSlice_eq_panic_iff`.
-/

namespace ExprLang

/-! ## Places -/

/-- The place that a bound means among `len` items. A negative bound counts from the end. The place
is moved to the nearest one from 0 to `len`, or to `len - 1` from -1 on if the step goes down. -/
def boundPlace (len : Nat) (step bound : Int) : Int :=
  let place := if bound < 0 then bound + len else bound
  if 0 < step then max 0 (min place len) else max (-1) (min place (len - 1))

/-- The place at which a slice starts. -/
def startPlace (len : Nat) (step : Int) (lower : Option Int) : Int :=
  lower.elim (if 0 < step then 0 else len - 1) (boundPlace len step)

/-- The place before which a slice stops. -/
def stopPlace (len : Nat) (step : Int) (upper : Option Int) : Int :=
  upper.elim (if 0 < step then len else -1) (boundPlace len step)

theorem sliceEnds_eq (len : Nat) (lower upper : Option Int) (step : Int) :
    sliceEnds len lower upper step = (startPlace len step lower, stopPlace len step upper) := by
  have hup (bound : Int) : clampBound len 0 len bound =
      max 0 (min (if bound < 0 then bound + len else bound) len) := by
    unfold clampBound
    split <;> omega
  have hdown (bound : Int) : clampBound len (-1) (len - 1) bound =
      max (-1) (min (if bound < 0 then bound + len else bound) (len - 1)) := by
    unfold clampBound
    split <;> omega
  unfold sliceEnds startPlace stopPlace
  by_cases hstep : 0 < step
  · simp only [if_pos hstep, funext hup]
    cases lower <;> cases upper <;> simp [boundPlace, hstep]
  · simp only [if_neg hstep, funext hdown]
    cases lower <;> cases upper <;> simp [boundPlace, hstep]

/-- A slice starts and stops inside of the items, or right beside them. -/
theorem startPlace_bounds (len : Nat) (step : Int) (lower : Option Int) :
    if 0 < step then 0 ≤ startPlace len step lower else startPlace len step lower < len := by
  unfold startPlace boundPlace
  cases lower <;> dsimp only [Option.elim] <;> split_ifs <;> omega

theorem stopPlace_bounds (len : Nat) (step : Int) (upper : Option Int) :
    if 0 < step then stopPlace len step upper ≤ len else -1 ≤ stopPlace len step upper := by
  unfold stopPlace boundPlace
  cases upper <;> dsimp only [Option.elim] <;> split_ifs <;> omega

/-- What comes before the end of a slice is the place of an item. -/
theorem place_of_isBefore {len : Nat} {lower upper : Option Int} {step : Int} {j : Nat}
    (h : IsBefore step (startPlace len step lower + j * step) (stopPlace len step upper)) :
    ∃ place : Nat, (place : Int) = startPlace len step lower + j * step ∧ place < len := by
  have hstart := startPlace_bounds len step lower
  have hstop := stopPlace_bounds len step upper
  unfold IsBefore at h
  refine ⟨(startPlace len step lower + j * step).toNat, ?_⟩
  by_cases hstep : 0 < step
  · rw [if_pos hstep] at h hstart hstop
    have hmove : 0 ≤ j * step := by positivity
    omega
  · rw [if_neg hstep] at h hstart hstop
    have hmove : j * step ≤ 0 := Int.mul_nonpos_of_nonneg_of_nonpos (by omega) (by omega)
    omega

/-- What comes before a place in the direction of the step comes before all that it comes before. -/
theorem IsBefore.of_le {start stop step : Int} {i j : Nat} (hle : i ≤ j)
    (h : IsBefore step (start + j * step) stop) : IsBefore step (start + i * step) stop := by
  have hle : (i : Int) ≤ j := by exact_mod_cast hle
  unfold IsBefore at h ⊢
  split at h
  · next hpos =>
    rw [if_pos hpos]
    have hmove := Int.mul_le_mul_of_nonneg_right hle hpos.le
    omega
  · next hneg =>
    rw [if_neg hneg]
    have hmove := Int.mul_le_mul_of_nonpos_right hle (not_lt.1 hneg)
    omega

/-! ## Steps -/

/-- Whether the step can be added to each place of a slice of `len` items. -/
def StepsFit (len : Nat) (start stop step : Int) : Prop :=
  ∀ j : Nat, IsBefore step (start + j * step) stop → PlaceFits len (start + (j + 1) * step)

/-- Near items whose number is a word, a place fits if it is a word itself. -/
theorem placeFits_add_iff {len : Nat} {place step : Int} (hlen : InRange len) (hplace : 0 ≤ place)
    (hstep : InRange step) : PlaceFits len (place + step) ↔ InRange (place + step) := by
  unfold PlaceFits InRange at *
  omega

/-- A place that does not come before the end has no step after it. -/
theorem stepsFit_of_not_isBefore {len : Nat} {start stop step : Int}
    (h : ¬IsBefore step start stop) : StepsFit len start stop step := by
  intro j hj
  have hstart := hj.of_le (Nat.zero_le j)
  rw [Int.natCast_zero, zero_mul, add_zero] at hstart
  exact absurd hstart h

/-- The steps from a place on are the one from it and those from the next place on. -/
theorem stepsFit_iff_of_isBefore {len : Nat} {start stop step : Int}
    (h : IsBefore step start stop) : StepsFit len start stop step ↔
      PlaceFits len (start + step) ∧ StepsFit len (start + step) stop step := by
  have hnext (j : Nat) : start + step + j * step = start + (j + 1 : Nat) * step := by
    push_cast
    ring
  have hafter (j : Nat) : start + step + (j + 1) * step = start + ((j + 1 : Nat) + 1) * step := by
    push_cast
    ring
  constructor
  · intro hfit
    refine ⟨by simpa using hfit 0 (by simpa using h), fun j hj => ?_⟩
    rw [hafter]
    exact hfit (j + 1) (hnext j ▸ hj)
  · rintro ⟨hfirst, hrest⟩ (_ | j) hj
    · simpa using hfirst
    · rw [← hafter]
      exact hrest j (hnext j ▸ hj)

/-- Steps that go down, and steps to the very next place, lead no further than beside the items. -/
theorem stepsFit_of_le_one {len : Nat} {lower upper : Option Int} {step : Int} (h : step ≤ 1) :
    StepsFit len (startPlace len step lower) (stopPlace len step upper) step := by
  intro j hj
  have hstart := startPlace_bounds len step lower
  have hstop := stopPlace_bounds len step upper
  unfold IsBefore at hj
  refine .inl ?_
  by_cases hpos : 0 < step
  · obtain rfl : step = 1 := by omega
    simp only [if_pos Int.one_pos, mul_one] at hj hstop ⊢
    omega
  · rw [if_neg hpos] at hstart
    have hmove : (j + 1) * step ≤ 0 :=
      Int.mul_nonpos_of_nonneg_of_nonpos (by omega) (not_lt.1 hpos)
    omega

/-! ## The loop -/

/-- Whether places are `start`, `start + step`, `start + 2 * step` and so on, all that come before
`stop`. -/
structure ArePlaces (start stop step : Int) (places : List Nat) : Prop where
  /-- Each place comes before `stop`. -/
  place : ∀ j < places.length, IsBefore step (start + j * step) stop ∧
    places[j]? = some (start + j * step).toNat
  /-- The next place does not. -/
  last : ¬IsBefore step (start + places.length * step) stop

theorem ArePlaces.nil {start stop step : Int} (h : ¬IsBefore step start stop) :
    ArePlaces start stop step [] :=
  ⟨nofun, by simpa using h⟩

theorem ArePlaces.cons {start stop step : Int} {places : List Nat} (h : IsBefore step start stop)
    (hrest : ArePlaces (start + step) stop step places) :
    ArePlaces start stop step (start.toNat :: places) := by
  have hnext (j : Nat) : start + (j + 1 : Nat) * step = start + step + j * step := by
    push_cast
    ring
  constructor
  · rintro (_ | j) hj
    · simpa using h
    · rw [hnext]
      exact hrest.place j (Nat.lt_of_succ_lt_succ hj)
  · rw [List.length_cons, hnext]
    exact hrest.last

/-- The loop collects the places if all steps fit. -/
theorem placesFrom_of_stepsFit {len : Nat} {stop step start : Int} (hstep : step ≠ 0)
    (h : StepsFit len start stop step) (places : Array Nat) :
    ∃ new, placesFrom len stop step start places = .ok (places ++ new.toArray) ∧
      ArePlaces start stop step new := by
  fun_induction placesFrom len stop step start places with
  | case1 place places hbefore hfits ih =>
    obtain ⟨new, hrest, hnew⟩ := ih ((stepsFit_iff_of_isBefore hbefore.2).1 h).2
    exact ⟨place.toNat :: new, by simp [hrest], .cons hbefore.2 hnew⟩
  | case2 place places hbefore hfits =>
    exact absurd ((stepsFit_iff_of_isBefore hbefore.2).1 h).1 hfits
  | case3 place places hdone =>
    exact ⟨[], by simp, .nil fun hbefore => hdone ⟨hstep, hbefore⟩⟩

/-- If a step does not fit, the loop comes to it. -/
theorem placesFrom_of_not_stepsFit {len : Nat} {stop step start : Int} {places : Array Nat}
    (hstep : step ≠ 0) (h : ¬StepsFit len start stop step) :
    placesFrom len stop step start places = .error (.panic .addition) := by
  fun_induction placesFrom len stop step start places with
  | case1 place places hbefore hfits ih =>
    exact ih fun hrest => h ((stepsFit_iff_of_isBefore hbefore.2).2 ⟨hfits, hrest⟩)
  | case2 => rfl
  | case3 place places hdone =>
    exact absurd (stepsFit_of_not_isBefore fun hbefore => hdone ⟨hstep, hbefore⟩) h

section

variable {len : Nat} {lower upper : Option Int} {step : Int} (hstep : step ≠ 0)

include hstep

theorem slicePlaces_of_stepsFit
    (h : StepsFit len (startPlace len step lower) (stopPlace len step upper) step) :
    ∃ places, slicePlaces len lower upper step = .ok places ∧
      ArePlaces (startPlace len step lower) (stopPlace len step upper) step places := by
  obtain ⟨places, hplaces, hare⟩ := placesFrom_of_stepsFit hstep h #[]
  refine ⟨places, ?_, hare⟩
  unfold slicePlaces
  rw [sliceEnds_eq]
  dsimp only
  rw [hplaces]
  simp [Except.map]

theorem slicePlaces_of_not_stepsFit
    (h : ¬StepsFit len (startPlace len step lower) (stopPlace len step upper) step) :
    slicePlaces len lower upper step = .error (.panic .addition) := by
  unfold slicePlaces
  rw [sliceEnds_eq]
  dsimp only
  rw [placesFrom_of_not_stepsFit hstep h]
  rfl

end

/-! ## Items -/

/-- Whether items are those at the places `start`, `start + step`, `start + 2 * step` and so on
before `stop`. -/
structure IsSlice {α : Type} (items : List α) (start stop step : Int) (taken : List α) :
    Prop where
  /-- Each item is that at its place, which comes before `stop` and has an item. -/
  item : ∀ j < taken.length, ∃ place : Nat, (place : Int) = start + j * step ∧
    IsBefore step place stop ∧ place < items.length ∧ taken[j]? = items[place]?
  /-- The next place does not come before `stop`. -/
  last : ¬IsBefore step (start + taken.length * step) stop

/-- There is only one slice at given places. -/
theorem IsSlice.unique {α : Type} {items taken taken' : List α} {start stop step : Int}
    (h : IsSlice items start stop step taken) (h' : IsSlice items start stop step taken') :
    taken = taken' := by
  have hlength : taken.length = taken'.length := by
    -- If one were longer, the place at which the other stops would come before `stop`.
    rcases Nat.lt_trichotomy taken.length taken'.length with hlt | heq | hgt
    · obtain ⟨place, hplace, hbefore, -⟩ := h'.item _ hlt
      exact absurd (hplace ▸ hbefore) h.last
    · exact heq
    · obtain ⟨place, hplace, hbefore, -⟩ := h.item _ hgt
      exact absurd (hplace ▸ hbefore) h'.last
  refine List.ext_getElem? fun j => ?_
  by_cases hj : j < taken.length
  · obtain ⟨place, hplace, -, -, hitem⟩ := h.item j hj
    obtain ⟨place', hplace', -, -, hitem'⟩ := h'.item j (hlength ▸ hj)
    obtain rfl : place = place' := by omega
    rw [hitem, hitem']
  · rw [List.getElem?_eq_none (by omega), List.getElem?_eq_none (by omega)]

/-- Items that are changed one by one have the slice changed in the same way. -/
theorem IsSlice.map {α β : Type} {items taken : List α} {start stop step : Int}
    (h : IsSlice items start stop step taken) (f : α → β) :
    IsSlice (items.map f) start stop step (taken.map f) := by
  constructor
  · intro j hj
    obtain ⟨place, hplace, hbefore, hlt, hitem⟩ := h.item j (by simpa using hj)
    refine ⟨place, hplace, hbefore, by simpa using hlt, ?_⟩
    rw [List.getElem?_map, List.getElem?_map, hitem]
  · rw [List.length_map]
    exact h.last

section

variable {α β : Type} (items : List α)

theorem itemsAt_eq (places : List Nat) : itemsAt items places = places.filterMap (items[·]?) := by
  unfold itemsAt
  simp only [List.getElem?_toArray]

theorem map_some_filterMap {f : α → Option β} {l : List α} (h : ∀ a ∈ l, (f a).isSome) :
    (l.filterMap f).map some = l.map f := by
  induction l with
  | nil => rfl
  | cons a l ih =>
    obtain ⟨ha, hl⟩ := List.forall_mem_cons.1 h
    obtain ⟨b, hb⟩ := Option.isSome_iff_exists.1 ha
    rw [List.filterMap_cons_some hb, List.map_cons, List.map_cons, ih hl, hb]

/-- There is an item at every place of a slice. -/
theorem isSlice_itemsAt {lower upper : Option Int} {step : Int} {places : List Nat}
    (h : ArePlaces (startPlace items.length step lower) (stopPlace items.length step upper) step
      places) :
    IsSlice items (startPlace items.length step lower) (stopPlace items.length step upper) step
      (itemsAt items places) := by
  have hitems : (itemsAt items places).map some = places.map (items[·]?) := by
    rw [itemsAt_eq]
    refine map_some_filterMap fun i hi => ?_
    obtain ⟨j, hj⟩ := List.mem_iff_getElem?.1 hi
    obtain ⟨hbefore, hat⟩ := h.place j (List.getElem?_eq_some_iff.1 hj).1
    obtain ⟨place, hplace, hlt⟩ := place_of_isBefore hbefore
    obtain rfl : i = place := by simpa [← hplace, hj] using hat
    simp [hlt]
  have hlength : (itemsAt items places).length = places.length := by
    simpa using congrArg List.length hitems
  constructor
  · intro j hj
    obtain ⟨hbefore, hat⟩ := h.place j (hlength ▸ hj)
    obtain ⟨place, hplace, hlt⟩ := place_of_isBefore hbefore
    refine ⟨place, hplace, hplace ▸ hbefore, hlt, ?_⟩
    have hitem := congrArg (·[j]?) hitems
    simp only [List.getElem?_map, hat, Option.map_some, ← hplace, Int.toNat_natCast,
      List.getElem?_eq_getElem hlt] at hitem
    rw [List.getElem?_eq_getElem hlt]
    exact Option.map_injective (Option.some_injective α) hitem
  · rw [hlength]
    exact h.last

/-- Up to a bound, a slice has the first items. -/
theorem isSlice_take (bound : Int) :
    IsSlice items 0 (boundPlace items.length 1 bound) 1
      (items.take (boundPlace items.length 1 bound).toNat) := by
  have hbound := startPlace_bounds items.length 1 (some bound)
  have hbound' := stopPlace_bounds items.length 1 (some bound)
  simp only [startPlace, stopPlace, Option.elim_some, if_pos Int.one_pos] at hbound hbound'
  constructor
  · intro j hj
    rw [List.length_take] at hj
    refine ⟨j, by omega, ?_, by omega, List.getElem?_take_of_lt (by omega)⟩
    unfold IsBefore
    rw [if_pos Int.one_pos]
    omega
  · unfold IsBefore
    rw [if_pos Int.one_pos, List.length_take]
    omega

/-- From a bound on, a slice has the other items. -/
theorem isSlice_drop (bound : Int) :
    IsSlice items (boundPlace items.length 1 bound) items.length 1
      (items.drop (boundPlace items.length 1 bound).toNat) := by
  have hbound := startPlace_bounds items.length 1 (some bound)
  have hbound' := stopPlace_bounds items.length 1 (some bound)
  simp only [startPlace, stopPlace, Option.elim_some, if_pos Int.one_pos] at hbound hbound'
  constructor
  · intro j hj
    rw [List.length_drop] at hj
    refine ⟨(boundPlace items.length 1 bound).toNat + j, by omega, ?_, by omega,
      List.getElem?_drop⟩
    unfold IsBefore
    rw [if_pos Int.one_pos]
    omega
  · unfold IsBefore
    rw [if_pos Int.one_pos, List.length_drop]
    omega

/-- The slice that goes down from the last item has all items in reverse order. -/
theorem isSlice_reverse :
    IsSlice items (items.length - 1) (-1) (-1) items.reverse := by
  have hdown : ¬(0 : Int) < -1 := by decide
  constructor
  · intro j hj
    rw [List.length_reverse] at hj
    refine ⟨items.length - 1 - j, by omega, ?_, by omega, List.getElem?_reverse hj⟩
    unfold IsBefore
    rw [if_neg hdown]
    omega
  · unfold IsBefore
    rw [if_neg hdown, List.length_reverse]
    omega

end

/-! ## Sequences -/

/-- Whether a value is a string, a tuple or a list, with the given items. -/
inductive Value.IsSequence : Value → List Value → Prop
  | str (s : String) : IsSequence (.str s) (s.toList.map Value.ofChar)
  | tuple (id : Identity) (items : List Value) : IsSequence (.tuple id items) items
  | list (id : Identity) (items : List Value) : IsSequence (.list id items) items

variable {v w : Value} {items : List Value}

theorem sliceBound_none : Value.none.sliceBound = .ok none :=
  rfl

theorem sliceBound_of_int? {n : Int64} (h : v.int? = some n) :
    v.sliceBound = .ok (some n.toInt) := by
  cases v with
  | bool | int => cases h; rfl
  | _ => cases h

section

variable {lower upper step : Value} {a b s : Option Int} (ha : lower.sliceBound = .ok a)
  (hb : upper.sliceBound = .ok b) (hs : step.sliceBound = .ok s) (hstep : s.getD 1 ≠ 0)

include ha hb hs hstep

/-- If all steps fit, a slice has what is at its places. -/
theorem getSlice_of_stepsFit {len : Nat} (hlen : v.size = .ok len) (id : Identity)
    (hfit : StepsFit len (startPlace len (s.getD 1) a) (stopPlace len (s.getD 1) b) (s.getD 1)) :
    ∃ places, v.getSlice id lower upper step = v.takenAt id places ∧
      ArePlaces (startPlace len (s.getD 1) a) (stopPlace len (s.getD 1) b) (s.getD 1) places := by
  obtain ⟨places, hplaces, hare⟩ := slicePlaces_of_stepsFit hstep hfit
  refine ⟨places, ?_, hare⟩
  unfold Value.getSlice
  simp [bind, Except.bind, ha, hb, hs, hstep, hlen, hplaces]

/-- A slice of a string has the characters at its places. -/
theorem getSlice_str (t : String) (id : Identity)
    (hfit : StepsFit t.toList.length (startPlace t.toList.length (s.getD 1) a)
      (stopPlace t.toList.length (s.getD 1) b) (s.getD 1)) :
    ∃ taken, Value.getSlice id (.str t) lower upper step = .ok (.str (String.ofList taken)) ∧
      IsSlice t.toList (startPlace t.toList.length (s.getD 1) a)
        (stopPlace t.toList.length (s.getD 1) b) (s.getD 1) taken := by
  have hlen : (Value.str t).size = .ok t.toList.length := by
    rw [String.length_toList]
    rfl
  obtain ⟨places, hget, hare⟩ := getSlice_of_stepsFit ha hb hs hstep hlen id hfit
  exact ⟨itemsAt t.toList places, hget, isSlice_itemsAt t.toList hare⟩

/-- A slice of a sequence is a sequence of the same type. -/
theorem Value.IsSequence.getSlice (hv : v.IsSequence items) (id : Identity)
    (hfit : StepsFit items.length (startPlace items.length (s.getD 1) a)
      (stopPlace items.length (s.getD 1) b) (s.getD 1)) :
    ∃ w taken, v.getSlice id lower upper step = .ok w ∧ w.typeName = v.typeName ∧
      w.IsSequence taken ∧ IsSlice items (startPlace items.length (s.getD 1) a)
        (stopPlace items.length (s.getD 1) b) (s.getD 1) taken := by
  cases hv with
  | str t =>
    rw [List.length_map] at hfit ⊢
    obtain ⟨taken, hget, htaken⟩ := getSlice_str ha hb hs hstep t id hfit
    refine ⟨_, taken.map Value.ofChar, hget, rfl, ?_, htaken.map _⟩
    have h := IsSequence.str (String.ofList taken)
    rwa [String.toList_ofList] at h
  | tuple i items =>
    obtain ⟨places, hget, hare⟩ :=
      getSlice_of_stepsFit (v := .tuple i items) ha hb hs hstep rfl id hfit
    exact ⟨_, _, hget, rfl, .tuple id _, isSlice_itemsAt items hare⟩
  | list i items =>
    obtain ⟨places, hget, hare⟩ :=
      getSlice_of_stepsFit (v := .list i items) ha hb hs hstep rfl id hfit
    exact ⟨_, _, hget, rfl, .list id _, isSlice_itemsAt items hare⟩

end

theorem Value.IsSequence.getItem (hv : v.IsSequence items) {index : Int64} {place : Nat}
    (hplace : index.toInt = place) (hlt : place < items.length) :
    v.getItem (.int index) = .ok items[place] := by
  have hat : itemAt v (.int index) items = .ok items[place] := by
    unfold itemAt itemPlace?
    simp [Value.int?, hplace, hlt, Int.not_ofNat_neg]
  cases hv with
  | str | tuple | list => exact hat

/-- Two sequences of one type are joined. -/
theorem Value.IsSequence.add {l r : Value} {before after : List Value} (hl : l.IsSequence before)
    (hr : r.IsSequence after) (htype : l.typeName = r.typeName) (id : Identity) :
    ∃ w, Value.binaryOp id .add l r = .ok w ∧ w.typeName = l.typeName ∧
      w.IsSequence (before ++ after) := by
  cases hl with
  | str s =>
    cases hr with
    | str t =>
      refine ⟨.str (s ++ t), rfl, rfl, ?_⟩
      have h := IsSequence.str (s ++ t)
      rwa [String.toList_append, List.map_append] at h
    | _ => cases htype
  | tuple i xs =>
    cases hr with
    | tuple => exact ⟨_, rfl, rfl, .tuple id _⟩
    | _ => cases htype
  | list i xs =>
    cases hr with
    | list => exact ⟨_, rfl, rfl, .list id _⟩
    | _ => cases htype

theorem run_reversed (hv : v.IsSequence items) (call : Caller) (r : RealmId) (s : Store) :
    ∃ id s', Builtin.run call r .reversed (.ofList [v]) s = .ok (.iterator id) s' ∧
      s'.itemsLeft id = items.reverse := by
  refine ⟨s.iterators.size, { s with iterators := s.iterators.push items.reverse }, ?_, ?_⟩
  · cases hv <;> rfl
  · simp [Store.itemsLeft]

/-! ## Slices of sequences -/

/-- If the step can be added to each place, a slice of a sequence is a sequence of the same type,
with exactly the items at the places from its start on that come before its stop, each the item that
indexing gives. The slices up to a bound and from it on make up the whole, and the slice with step
-1 has the items that an iterator in reverse yields. -/
theorem getSlice_exact (hv : v.IsSequence items) (id : Identity) :
    (∀ (lower upper step : Value) {a b s : Option Int}, lower.sliceBound = .ok a →
      upper.sliceBound = .ok b → step.sliceBound = .ok s → s.getD 1 ≠ 0 →
      StepsFit items.length (startPlace items.length (s.getD 1) a)
        (stopPlace items.length (s.getD 1) b) (s.getD 1) →
      ∃ w taken, v.getSlice id lower upper step = .ok w ∧ w.typeName = v.typeName ∧
        w.IsSequence taken ∧
        IsSlice items (startPlace items.length (s.getD 1) a)
          (stopPlace items.length (s.getD 1) b) (s.getD 1) taken ∧
        ∀ j place : Int64, 0 ≤ j.toInt → j.toInt < taken.length →
          place.toInt = startPlace items.length (s.getD 1) a + j.toInt * s.getD 1 →
          ∃ item, w.getItem (.int j) = .ok item ∧ v.getItem (.int place) = .ok item) ∧
    (∀ {k : Value} {n : Int64}, k.int? = some n →
      ∃ before after w, v.getSlice id .none k .none = .ok before ∧
        v.getSlice id k .none .none = .ok after ∧
        Value.binaryOp id .add before after = .ok w ∧ w.typeName = v.typeName ∧
        w.IsSequence items) ∧
    (∀ {k : Value}, k.int? = some (-1) → ∀ (call : Caller) (r : RealmId) (s : Store),
      ∃ w it s', v.getSlice id .none .none k = .ok w ∧
        Builtin.run call r .reversed (.ofList [v]) s = .ok (.iterator it) s' ∧
        w.IsSequence (s'.itemsLeft it)) := by
  refine ⟨?slice, ?halves, ?reverse⟩
  case slice =>
    intro lower upper step a b s ha hb hs hstep hfit
    obtain ⟨w, taken, hw, htype, hitems, hslice⟩ := hv.getSlice ha hb hs hstep id hfit
    refine ⟨w, taken, hw, htype, hitems, hslice, fun j place hj hlt hplace => ?_⟩
    obtain ⟨i, hi, -, hlen, hitem⟩ := hslice.item j.toInt.toNat (by omega)
    rw [Int.toNat_of_nonneg hj] at hi
    have hget := hitems.getItem (Int.toNat_of_nonneg hj).symm (by omega)
    refine ⟨items[i], ?_, hv.getItem (by omega) hlen⟩
    rw [List.getElem?_eq_getElem (by omega), List.getElem?_eq_getElem hlen] at hitem
    rw [hget, Option.some.inj hitem]
  case halves =>
    intro k n hk
    have hbound := sliceBound_of_int? hk
    obtain ⟨before, first, hbefore, htype, hitems, hfirst⟩ := hv.getSlice sliceBound_none hbound
      sliceBound_none one_ne_zero id (stepsFit_of_le_one le_rfl)
    obtain ⟨after, rest, hafter, htype', hitems', hrest⟩ := hv.getSlice hbound sliceBound_none
      sliceBound_none one_ne_zero id (stepsFit_of_le_one le_rfl)
    obtain ⟨w, hw, htypew, hwhole⟩ := hitems.add hitems' (htype.trans htype'.symm) id
    rw [hfirst.unique (isSlice_take items n.toInt), hrest.unique (isSlice_drop items n.toInt),
      List.take_append_drop] at hwhole
    exact ⟨before, after, w, hbefore, hafter, hw, htypew.trans htype, hwhole⟩
  case reverse =>
    intro k hk call r s
    obtain ⟨w, taken, hw, -, hitems, htaken⟩ := hv.getSlice sliceBound_none sliceBound_none
      (sliceBound_of_int? hk) (by decide) id (stepsFit_of_le_one (by decide))
    obtain ⟨it, s', hrun, hleft⟩ := run_reversed hv call r s
    refine ⟨w, it, s', hw, hrun, ?_⟩
    rw [hleft, ← htaken.unique (isSlice_reverse items)]
    exact hitems

/-- A slice that goes down by two from the last item. -/
theorem getSlice_exact_down :
    (Value.str "abcde").IsSequence ("abcde".toList.map Value.ofChar) ∧
    ∃ w taken, Value.getSlice 0 (.str "abcde") (.int (-1)) (.int 0) (.int (-2)) = .ok w ∧
      w.typeName = .str ∧ w.IsSequence taken ∧
      IsSlice ("abcde".toList.map Value.ofChar) 4 0 (-2) taken := by
  refine ⟨.str _, ?_⟩
  obtain ⟨w, taken, hw, htype, hitems, hslice, -⟩ := (getSlice_exact (.str "abcde") 0).1
    (.int (-1)) (.int 0) (.int (-2)) rfl rfl rfl (by decide) (stepsFit_of_le_one (by decide))
  exact ⟨w, taken, hw, htype, hitems, hslice⟩

example : Value.getSlice 0 (.str "abcde") (.int (-1)) (.int 0) (.int (-2)) = .ok (.str "ec") := by
  cbv

/-! ## Slices that panic -/

end ExprLang
