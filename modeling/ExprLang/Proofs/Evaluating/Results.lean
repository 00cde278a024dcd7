import ExprLang.Builtin.Method
import ExprLang.Proofs.Evaluating.Parts
import ExprLang.Proofs.Numbers.Residues

/-!
# Results of operations on values

`Gives x Q` says that a computation which reads no store gives a value with `Q`, or fails with an
error of the language (`RuntimeError.Ordinary`): it is asked from outside to stop, so no operation
on values reports that it was, and hardly any can make the program panic. Every such operation has
its lemma here, which says besides that what it makes out of values with a hereditary property has
the property as well. The two that may panic are slices, which are put together from parts in
`Code.getSlice`, and powers with a modulus (`gives_powMod`).
-/

namespace ExprLang

variable {α β : Type}

/-! ## The rules -/

/-- Whether an error is one of the language: neither an interrupt nor a panic. -/
@[simp] def RuntimeError.Ordinary : RuntimeError → Prop
  | .interrupted | .panic _ => False
  | _ => True

/-- An error of the language is no interrupt. -/
theorem RuntimeError.Ordinary.ne_interrupted {e : RuntimeError} (h : e.Ordinary) :
    e ≠ .interrupted := by
  rintro rfl
  exact h

/-- An error of the language is no panic. -/
theorem RuntimeError.Ordinary.ne_panic {e : RuntimeError} (h : e.Ordinary) (cause : Panic) :
    e ≠ .panic cause := by
  rintro rfl
  exact h

/-- Whether a computation gives a value with `Q`, or fails with an error of the language. -/
def Gives (x : Except RuntimeError α) (Q : α → Prop) : Prop :=
  match x with
  | .ok a => Q a
  | .error e => e.Ordinary

/-- Whether a computation gives a value, or fails with an error of the language. -/
abbrev Ordinary (x : Except RuntimeError α) : Prop :=
  Gives x fun _ => True

@[simp] theorem gives_ok {Q : α → Prop} {a : α} : Gives (.ok a) Q ↔ Q a := Iff.rfl

@[simp] theorem gives_pure {Q : α → Prop} {a : α} : Gives (pure a) Q ↔ Q a := Iff.rfl

@[simp] theorem gives_error {Q : α → Prop} {e : RuntimeError} :
    Gives (.error e) Q ↔ e.Ordinary := Iff.rfl

@[simp] theorem gives_throw {Q : α → Prop} {e : RuntimeError} :
    Gives (throw e) Q ↔ e.Ordinary := Iff.rfl

@[simp] theorem gives_map {Q : β → Prop} {f : α → β} {x : Except RuntimeError α} :
    Gives (x.map f) Q ↔ Gives x fun a => Q (f a) := by
  cases x <;> rfl

@[simp] theorem gives_functor_map {Q : β → Prop} {f : α → β} {x : Except RuntimeError α} :
    Gives (f <$> x) Q ↔ Gives x fun a => Q (f a) := by
  cases x <;> rfl

@[simp] theorem gives_ite {Q : α → Prop} {c : Prop} [Decidable c] {x y : Except RuntimeError α} :
    Gives (if c then x else y) Q ↔ (c → Gives x Q) ∧ (¬c → Gives y Q) := by
  split <;> simp [*]

/-- What stands behind a failure is never come to. -/
@[simp] theorem gives_throw_bind {Q : β → Prop} {e : RuntimeError}
    {f : α → Except RuntimeError β} : Gives (throw e >>= f) Q ↔ e.Ordinary := Iff.rfl

/-- A weaker property of the value will do. -/
theorem Gives.imp {x : Except RuntimeError α} {Q R : α → Prop} (hx : Gives x Q)
    (h : ∀ a, Q a → R a) : Gives x R := by
  cases x with
  | ok a => exact h a hx
  | error e => exact hx

theorem Gives.bind {x : Except RuntimeError α} {f : α → Except RuntimeError β} {Q : α → Prop}
    {R : β → Prop} (hx : Gives x Q) (hf : ∀ a, Q a → Gives (f a) R) : Gives (x >>= f) R := by
  cases x with
  | ok a => exact hf a hx
  | error e => exact hx

/-- A fold keeps what each of its steps keeps. -/
theorem Gives.foldlM {I : β → Prop} {f : β → α → Except RuntimeError β} {as : List α}
    (hf : ∀ a ∈ as, ∀ b, I b → Gives (f b a) I) {b : β} (hb : I b) :
    Gives (as.foldlM f b) I := by
  induction as generalizing b with
  | nil => exact hb
  | cons a as ih =>
    rw [List.forall_mem_cons] at hf
    exact (hf.1 b hb).bind fun b' hb' => ih hf.2 hb'

/-! ## Integers -/

/-- A result that is out of range is an error of the language. -/
@[simp] theorem ordinary_checkedInt (n : Int) : Ordinary (checkedInt n) := by
  simp [checkedInt]

/-- The steps of a division that are not checked fit all the same. -/
theorem ordinary_floorDiv (x : Int64) {y : Int64} (hy : y ≠ 0) : Ordinary (floorDiv x y) := by
  rw [floorDiv_eq x hy]
  exact ordinary_checkedInt _

/-- The remainder is never out of range. -/
theorem ordinary_floorMod (x : Int64) {y : Int64} (hy : y ≠ 0) : Ordinary (floorMod x y) := by
  rw [floorMod_eq x hy]
  exact ordinary_checkedInt _

@[simp] theorem ordinary_intFloorDiv (x y : Int64) : Ordinary (intFloorDiv x y) :=
  gives_ite.2 ⟨fun _ => trivial, ordinary_floorDiv x⟩

@[simp] theorem ordinary_intMod (x y : Int64) : Ordinary (intMod x y) :=
  gives_ite.2 ⟨fun _ => trivial, ordinary_floorMod x⟩

/-- Every square and every product on the way is checked. -/
@[simp] theorem ordinary_powTimes (acc base : Int64) (e : Nat) :
    Ordinary (powTimes acc base e) := by
  induction e using Nat.strongRecOn generalizing acc base with
  | ind e ih =>
    unfold powTimes
    have htimes : Ordinary (timesOdd acc base e) := by simp [timesOdd]
    refine htimes.bind fun acc _ => ?_
    split
    · trivial
    · exact (ordinary_checkedInt _).bind fun square _ => ih _ (by omega) _ _

@[simp] theorem ordinary_intPow (x : Int64) (e : Nat) : Ordinary (intPow x e) := by
  simp [intPow]

@[simp] theorem ordinary_intShiftLeft (x y : Int64) : Ordinary (intShiftLeft x y) := by
  simp [intShiftLeft]

@[simp] theorem ordinary_intShiftRight (x y : Int64) :
    Ordinary (intShiftRight x y) := by
  simp [intShiftRight]

/-- Only the negation of an exponent may be out of range in a power of residues. -/
theorem ordinary_intPowMod (b e m : Int64) :
    Ordinary (intPowMod b e m) ∨ intPowMod b e m = .error (.panic .negation) := by
  by_cases hm : m = 0
  · exact .inl (by simp [intPowMod, hm])
  by_cases hneg : e < 0
  · by_cases hleast : e.toInt = -9223372036854775808
    · rw [intPowMod_of_least b hm hleast]
      split <;> simp
    · have hspec := intPowMod_of_neg b hm hneg (by have := (inRange_toInt e).1; omega)
      split_ifs at hspec
      · obtain ⟨k, hk, -⟩ := hspec
        simp [hk]
      · simp [hspec]
  · obtain ⟨k, hk, -⟩ := intPowMod_of_nonneg b hm hneg
    simp [hk]

/-- A text that is no integer, or too big a one, is an error of the language. -/
theorem ordinary_readIntText (text : String) (base : Int) :
    Ordinary (readIntText text base) := by
  unfold readIntText
  dsimp only
  split
  · simp
  · split
    · simp
    · split <;> simp

/-! ## Floats and complex numbers -/

@[simp] theorem ordinary_floatDiv (x y : Double) : Ordinary (floatDiv x y) := by
  simp [floatDiv]

@[simp] theorem ordinary_floatFloorDiv (x y : Double) :
    Ordinary (floatFloorDiv x y) := by
  simp [floatFloorDiv]

@[simp] theorem ordinary_floatMod (x y : Double) : Ordinary (floatMod x y) := by
  simp [floatMod]

@[simp] theorem ordinary_complexDiv (z w : Complex) : Ordinary (z.div w) := by
  simp [Complex.div]

@[simp] theorem ordinary_complexPow (z w : Complex) : Ordinary (z.pow w) := by
  unfold Complex.pow
  cases smallWhole? w <;> simp

@[simp] theorem ordinary_floatPow (x y : Double) : Ordinary (floatPow x y) := by
  simp [floatPow]

/-- A float without an integer part, or with too big a one, is an error of the language. -/
@[simp] theorem ordinary_floatToInt (whole : FloatParts → Int) (x : Double) :
    Ordinary (floatToInt whole x) := by
  unfold floatToInt
  cases floatParts? x <;> simp

/-! ## Numbers -/

@[simp] theorem ordinary_intPower (x y : Int64) : Ordinary (intPower x y) := by
  simp [intPower]

/-- Whichever operation on integers it is. -/
theorem ordinary_intBinary {op : BinaryOp} {x y : Int64} :
    ∀ result ∈ intBinary? op x y, Ordinary result := by
  cases op <;> simp [intBinary?]

theorem ordinary_floatBinary {op : BinaryOp} {x y : Double} :
    ∀ result ∈ floatBinary? op x y, Ordinary result := by
  cases op <;> simp [floatBinary?]

theorem ordinary_complexBinary {op : BinaryOp} {z w : Complex} :
    ∀ result ∈ complexBinary? op z w, Ordinary result := by
  cases op <;> simp [complexBinary?]

/-- Two numbers are brought to one kind before the operation, so the operations above are all. -/
theorem ordinary_binary {op : BinaryOp} {a b : Number} :
    ∀ result ∈ a.binary? op b, Ordinary result := by
  unfold Number.binary?
  split
  · exact ordinary_intBinary
  · exact ordinary_complexBinary
  · exact ordinary_complexBinary
  · exact ordinary_floatBinary

@[simp] theorem ordinary_neg (n : Number) : Ordinary n.neg := by
  cases n <;> simp [Number.neg]

@[simp] theorem ordinary_abs (n : Number) : Ordinary n.abs := by
  cases n <;> simp [Number.abs]

@[simp] theorem ordinary_roundInt (i : Int64) (places : Int) :
    Ordinary (roundInt i places) := by
  simp [roundInt]

/-- A text that is rounded and read again may fail to be a finite float. -/
@[simp] theorem ordinary_roundFloat (x : Double) (places : Int) :
    Ordinary (roundFloat x places) := by
  unfold roundFloat
  cases floatParts? x with
  | none => simp
  | some p =>
    dsimp only
    cases p.roundedText? places with
    | none => simp
    | some text =>
      dsimp only
      cases (readFloat? text).filter (·.isFinite) <;> simp

/-- Rounding a number of any kind that can be rounded. -/
theorem ordinary_round {places : Option Int} {n : Number} :
    ∀ result ∈ n.round? places, Ordinary result := by
  cases n with
  | int i => simp [Number.round?]
  | float x => cases places <;> simp [Number.round?]
  | complex z => simp [Number.round?]

/-! ## Hashes and order -/

mutual
/-- What has no hash is reported as a `TypeError`, a nested item of a tuple included. -/
theorem ordinary_hash : ∀ v : Value, Ordinary v.hash
  | .tuple _ items => by
    unfold Value.hash
    simpa using ordinary_hashItems _ items
  | .none | .bool _ | .int _ | .float _ | .complex _ | .str _ | .list .. | .dict .. | .iterator _
  | .function .. | .builtin _ | .method .. => by simp [Value.hash]

/-- The items of a tuple are hashed in turn, and the first that has no hash is reported. -/
theorem ordinary_hashItems (acc : Hash) :
    ∀ vs : List Value, Ordinary (Value.hashItems acc vs)
  | [] => trivial
  | v :: vs => (ordinary_hash v).bind fun _ _ => ordinary_hashItems _ vs
end

mutual
/-- What cannot be ordered is reported as a `TypeError`. -/
theorem ordinary_order (symbol : String) :
    ∀ a b : Value, Ordinary (a.order symbol b)
  | a, b => by
    unfold Value.order
    split
    · simp
    · exact ordinary_orderItems symbol _ _
    · exact ordinary_orderItems symbol _ _
    · repeat' split
      all_goals simp

/-- Items are ordered by the first that differ. -/
theorem ordinary_orderItems (symbol : String) :
    ∀ as bs : List Value, Ordinary (Value.orderItems symbol as bs)
  | [], [] | [], _ :: _ | _ :: _, [] => trivial
  | a :: as, b :: bs => by
    unfold Value.orderItems
    split
    · exact ordinary_orderItems symbol as bs
    · exact ordinary_order symbol a b
end

/-- One link of a chain of comparisons. -/
theorem ordinary_holds {link : Comparison} {a b : Value} :
    ∀ result ∈ link.holds? a b, Ordinary result := by
  cases link <;> simp [Comparison.holds?, ordinary_order]

section

variable {P : Value → Prop} (hP : Respected P)

include hP

/-! ## Operators -/

/-- A number is an atom, so it has every hereditary property. -/
theorem gives_ofNumber {x : Except RuntimeError Number} (hx : Ordinary x) :
    Gives (x.map Value.ofNumber) P :=
  gives_map.2 (hx.imp fun n _ => hP.ofNumber n)

/-- A sign and an inversion make numbers. -/
theorem gives_unaryOp (op : UnaryOp) (v : Value) : Gives (v.unaryOp op) P := by
  unfold Value.unaryOp
  cases v.number? with
  | none => simp
  | some n =>
    cases op with
    | pos => exact hP.ofNumber n
    | neg => exact gives_ofNumber hP (ordinary_neg n)
    | invert =>
      cases n with
      | int i => exact hP.atom rfl
      | _ => simp

/-- The items of a repetition are those of the sequence. -/
theorem gives_repeat {v : Value} (hv : P v) (id : Identity) (count : Int64) :
    ∀ result ∈ v.repeat? id count, Gives result P := by
  have hitems : ∀ {items : List Value}, (∀ w ∈ items, P w) → ∀ times,
      ∀ w ∈ repeatItems items times, P w := by
    intro items h times w hw
    obtain ⟨copy, hcopy, hw⟩ := List.mem_flatten.1 hw
    exact h w (List.eq_of_mem_replicate hcopy ▸ hw)
  have hrepetitions : ∀ len, Ordinary (repetitions len count) := fun len => by
    simp [repetitions]
  cases v with
  | str s => simpa [Value.repeat?] using (hrepetitions _).imp fun _ _ => hP.atom rfl
  | tuple _ items =>
    simpa [Value.repeat?] using
      (hrepetitions _).imp fun times _ => hP.tuple.2 (hitems (hP.tuple.1 hv) times)
  | list _ items =>
    simpa [Value.repeat?] using
      (hrepetitions _).imp fun times _ => hP.list.2 (hitems (hP.list.1 hv) times)
  | _ => simp [Value.repeat?]

/-- Joining and repeating add no items, and merging none that was not in one of the dicts. -/
theorem gives_sequenceOp {a b : Value} (ha : P a) (hb : P b) (id : Identity) (op : BinaryOp) :
    ∀ result ∈ a.sequenceOp? id op b, Gives result P := by
  unfold Value.sequenceOp?
  split
  · simpa using hP.atom rfl
  · simpa using hP.list.2 (List.forall_mem_append.2 ⟨hP.list.1 ha, hP.list.1 hb⟩)
  · simpa using hP.tuple.2 (List.forall_mem_append.2 ⟨hP.tuple.1 ha, hP.tuple.1 hb⟩)
  · simpa using hP.merge ha hb
  · unfold Value.repeatEither?
    split
    · exact gives_repeat hP ha id _
    · exact gives_repeat hP hb id _
    · simp
  · simp

theorem gives_numericOp (a b : Value) (op : BinaryOp) :
    ∀ result ∈ a.numericOp? op b, Gives result P := by
  unfold Value.numericOp?
  split
  · next x y =>
    cases boolOp? op x y with
    | some z => simpa using hP.atom rfl
    | none => simpa using fun result h => gives_ofNumber hP (ordinary_intBinary result h)
  · split
    · simpa using fun result h => gives_ofNumber hP (ordinary_binary result h)
    · simp

/-- The value of a binary operator has what its operands have. -/
theorem gives_binaryOp {a b : Value} (ha : P a) (hb : P b) (id : Identity) (op : BinaryOp) :
    Gives (a.binaryOp id op b) P := by
  unfold Value.binaryOp
  cases hnumeric : a.numericOp? op b with
  | some result => exact gives_numericOp hP a b op result hnumeric
  | none =>
    cases hsequence : a.sequenceOp? id op b with
    | some result => exact gives_sequenceOp hP ha hb id op result hsequence
    | none => simp

/-! ## Attributes and items -/

/-- An attribute is a part of a number or a method that is bound to the value. -/
theorem gives_attribute {v : Value} (hv : P v) (id : Identity) (name : String) :
    Gives (v.attribute id name) P := by
  unfold Value.attribute
  cases hpart : v.part? name with
  | some part =>
    unfold Value.part? at hpart
    obtain ⟨n, -, hn⟩ := Option.bind_eq_some_iff.1 hpart
    split at hn
    · exact Option.some.inj hn ▸ hP.ofNumber _
    · split at hn
      · exact Option.some.inj hn ▸ hP.ofNumber _
      · cases hn
  | none =>
    cases Method.ofName? v.typeName name with
    | some found => exact hP.method.2 hv
    | none => simp

omit hP in
/-- An item is one of the items, wherever the index says. -/
theorem gives_itemAt {items : List Value} (h : ∀ w ∈ items, P w) (v index : Value) :
    Gives (itemAt v index items) P := by
  unfold itemAt
  cases index.int? with
  | none => simp
  | some i =>
    dsimp only
    split
    · next item hitem =>
      obtain ⟨place, -, hplace⟩ := Option.bind_eq_some_iff.1 hitem
      exact h item (List.mem_of_getElem? hplace)
    · simp

/-- An item is inside of what it is taken from. -/
theorem gives_getItem {v : Value} (hv : P v) (index : Value) : Gives (v.getItem index) P := by
  cases v with
  | dict id entries =>
    refine (ordinary_hash index).bind fun _ _ => ?_
    cases hvalue : valueUnder? entries index with
    | some w => exact hP.under hv hvalue
    | none => simp
  | str s => exact gives_itemAt (hP.items (v := .str s) hv rfl) _ index
  | tuple id items => exact gives_itemAt (hP.tuple.1 hv) _ index
  | list id items => exact gives_itemAt (hP.list.1 hv) _ index
  | _ => simp [Value.getItem]

omit hP in
/-- What is taken at some places is among the items. -/
theorem mem_of_mem_itemsAt {α : Type} {items : List α} {places : List Nat} {a : α}
    (h : a ∈ itemsAt items places) : a ∈ items := by
  obtain ⟨place, -, hplace⟩ := List.mem_filterMap.1 h
  exact List.mem_of_getElem? (by simpa using hplace)

omit hP in
/-- A bound of a slice is an integer or left out. -/
theorem ordinary_sliceBound (v : Value) : Ordinary v.sliceBound := by
  unfold Value.sliceBound
  split
  · trivial
  · split <;> simp

omit hP in
theorem ordinary_size (v : Value) : Ordinary v.size := by
  cases v <;> simp [Value.size]

/-- What is at given places of a value. -/
theorem gives_takenAt {v : Value} (hv : P v) (id : Identity) (places : List Nat) :
    Gives (v.takenAt id places) P := by
  cases v with
  | str s => exact hP.atom rfl
  | tuple _ items => exact hP.tuple.2 fun w hw => hP.tuple.1 hv w (mem_of_mem_itemsAt hw)
  | list _ items => exact hP.list.2 fun w hw => hP.list.1 hv w (mem_of_mem_itemsAt hw)
  | _ => simp [Value.takenAt]

/-! ## Conversions -/

omit hP in
theorem ordinary_asInteger (v : Value) : Ordinary v.asInteger := by
  unfold Value.asInteger
  split <;> simp

/-- A text is read in its base and a float is cut off. -/
theorem gives_toInteger (v : Value) (base : Option Value) : Gives (v.toInteger base) P := by
  have hread : ∀ s base, Gives (do return .int (← readIntText s base)) P := fun s base =>
    (ordinary_readIntText s base).bind fun _ _ => hP.atom rfl
  cases base with
  | some base =>
    refine (ordinary_asInteger base).bind fun base _ => ?_
    cases v with
    | str s => exact hread s _
    | _ => simp
  | none =>
    cases v with
    | str s => exact hread s _
    | float x => exact (ordinary_floatToInt _ x).bind fun _ _ => hP.atom rfl
    | bool b => exact hP.atom rfl
    | int n => exact hP.atom rfl
    | _ => simp [Value.toInteger]

/-- A text is read and a number is taken as a float. -/
theorem gives_toReal (v : Value) : Gives v.toReal P := by
  unfold Value.toReal
  split
  · split
    · exact hP.atom rfl
    · simp
  · split
    · exact hP.atom rfl
    · simp

omit hP in
theorem ordinary_toPart (v : Value) (place : String) : Ordinary (v.toPart place) := by
  unfold Value.toPart
  split
  · split <;> simp
  · split <;> simp

/-- Every way to give the two parts, a text for the first included. -/
theorem gives_complexOfParts (real imag : Option Value) : Gives (complexOfParts real imag) P := by
  have hdone : ∀ z, Gives (pure (.complex z)) P := fun _ => hP.atom rfl
  cases real with
  | none =>
    cases imag with
    | none => exact hdone _
    | some v =>
      refine gives_ite.2 ⟨fun _ => by simp, fun _ => ?_⟩
      exact (ordinary_toPart v "second").bind fun _ _ => hdone _
  | some u =>
    refine (ordinary_toPart u "first").bind fun re _ => ?_
    cases imag with
    | none => exact gives_ite.2 ⟨fun _ => by simp, fun _ => hdone _⟩
    | some v =>
      refine gives_ite.2 ⟨fun _ => by simp, fun _ => ?_⟩
      refine (ordinary_toPart v "second").bind fun im _ => ?_
      exact gives_ite.2 ⟨fun _ => by simp, fun _ => hdone _⟩

theorem gives_magnitude (v : Value) : Gives v.magnitude P := by
  unfold Value.magnitude
  split
  · exact gives_ofNumber hP (ordinary_abs _)
  · simp

/-- A number is rounded to the places that are asked for. -/
theorem gives_rounded (v places : Value) : Gives (v.rounded places) P := by
  have hplaces : Ordinary (some <$> places.asInteger) :=
    gives_functor_map.2 (ordinary_asInteger places)
  have hnone : Ordinary (pure (none : Option Int64)) := trivial
  refine gives_ite.2 ⟨fun _ => hnone.bind ?_, fun _ => hplaces.bind ?_⟩
  all_goals
    intro places _
    dsimp only
    split
    · next result hresult =>
      obtain ⟨n, -, hn⟩ := Option.bind_eq_some_iff.1 hresult
      exact gives_ofNumber hP (ordinary_round result hn)
    · simp

/-- A power with a modulus may panic, but only where its exponent is negated. -/
theorem gives_powMod (base exponent modulus : Value) :
    Gives (base.powMod exponent modulus) P ∨
      base.powMod exponent modulus = .error (.panic .negation) := by
  unfold Value.powMod
  split
  · next b e m _ _ _ =>
    refine (ordinary_intPowMod b e m).imp (fun h => ?_) fun h => ?_
    · exact gives_map.2 (h.imp fun _ _ => hP.atom rfl)
    · rw [h]
      rfl
  · exact .inl (by simp)

theorem gives_inRadix (v : Value) (radix : Nat) (mark : String) :
    Gives (v.inRadix radix mark) P :=
  (ordinary_asInteger v).bind fun _ _ => hP.atom rfl

/-! ## Methods -/

theorem gives_applyNumber (m : Method) (n : Number) : Gives (m.applyNumber n) P := by
  unfold Method.applyNumber
  split
  · exact hP.atom rfl
  · exact hP.ofNumber _
  · exact hP.atom rfl
  · exact hP.atom rfl
  · simp

/-- The methods of sequences count and find, so they make integers. -/
theorem gives_applyItems (m : Method) (type : TypeName) (items : List Value) (given : Bound) :
    Gives (m.applyItems type items given) P := by
  unfold Method.applyItems
  dsimp only
  split
  · exact hP.atom rfl
  · split
    · exact hP.atom rfl
    · simp
  · simp

end

theorem ordinary_asText (m : Method) (v : Value) : Ordinary (m.asText v) := by
  unfold Method.asText
  split <;> simp

theorem ordinary_strippedClass (m : Method) (chars : Value) :
    Ordinary (m.strippedClass chars) :=
  gives_ite.2 ⟨fun _ => trivial, fun _ => (ordinary_asText m chars).bind fun _ _ => trivial⟩

/-- A limit is an integer, and one that is left out or negative is none. -/
theorem ordinary_limitOf (count : Option Value) : Ordinary (limitOf count) := by
  unfold limitOf
  split
  · trivial
  · simp [ordinary_asInteger]

/-- An empty separator is an error of the language, and so is a limit that is no integer. -/
theorem ordinary_splitParts (m : Method) (cs : List Char) (sep : Value)
    (limit : Option Value) : Ordinary (splitParts m cs sep limit) := by
  refine gives_ite.2 ⟨fun _ => ?_, fun _ => ?_⟩
  · refine (ordinary_limitOf limit).bind fun limit _ => ?_
    split <;> simp
  · refine (ordinary_asText m sep).bind fun sep _ => ?_
    refine (ordinary_limitOf limit).bind fun limit _ => ?_
    refine gives_ite.2 ⟨fun _ => by simp, fun _ => ?_⟩
    split <;> simp

/-- Every candidate must be a text. -/
theorem ordinary_anyAffix (m : Method) (turned : List Char → List Char) (cs : List Char)
    (candidates : List Value) : Ordinary (anyAffix m turned cs candidates) := by
  induction candidates with
  | nil => trivial
  | cons v vs ih => cases v <;> simp [anyAffix, ih]

/-! ## Sorting -/

/-- To compare keys is to order them. -/
theorem ordinary_movesBefore (reverse : Bool) (later earlier : Value) :
    Ordinary (movesBefore reverse later earlier) := by
  refine gives_ite.2 ⟨fun _ => ?_, fun _ => ?_⟩
  · exact (ordinary_order _ _ _).bind fun _ _ => trivial
  · exact (ordinary_order _ _ _).bind fun _ _ => trivial

/-- An item that is put into its place joins the others, and no more. -/
theorem gives_insertSorted (reverse : Bool) (item : Value × α) (sorted : List (Value × α)) :
    Gives (insertSorted reverse item sorted) fun result => result ⊆ item :: sorted := by
  induction sorted with
  | nil => exact List.Subset.refl _
  | cons last before ih =>
    refine (ordinary_movesBefore _ _ _).bind fun moves _ => gives_ite.2 ⟨fun _ => ?_, fun _ => ?_⟩
    · refine ih.bind fun result hresult => ?_
      have hlast : last ∈ item :: last :: before := by simp
      refine List.cons_subset.2 ⟨hlast, fun p hp => ?_⟩
      rcases List.mem_cons.1 (hresult hp) with rfl | hbefore
      · simp
      · simp [hbefore]
    · exact List.Subset.refl _

/-- The items that come out are among those that went in. -/
theorem gives_insertionSort (reverse : Bool) (items : List (Value × α)) :
    Gives (insertionSort reverse items) fun result => result ⊆ items := by
  refine Gives.bind (Gives.foldlM (I := (· ⊆ items)) ?_ (List.nil_subset _)) fun sorted h => ?_
  · intro item hitem sorted hsorted
    refine (gives_insertSorted reverse item sorted).imp fun result hresult => ?_
    exact List.Subset.trans hresult (List.cons_subset.2 ⟨hitem, hsorted⟩)
  · exact fun p hp => h (List.mem_reverse.1 hp)

/-- Sorting adds no item. -/
theorem gives_sortByKey (reverse : Bool) (items : List (Value × α)) :
    Gives (sortByKey reverse items) fun result => result ⊆ items :=
  gives_ite.2 ⟨fun _ _ hp => List.mem_mergeSort.1 hp, fun _ => gives_insertionSort reverse items⟩

end ExprLang
