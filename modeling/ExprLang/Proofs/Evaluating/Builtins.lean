import ExprLang.Proofs.Evaluating.Code

/-!
# What builtin functions and methods are put together from

The code of every builtin function (`Code.builtin`) and of every method (`Code.method`). Only a key
function is called, once for each item; the loops over items poll before each of them.
-/

namespace ExprLang

variable {P : Value → Prop}

/-! ## The options of an extreme -/

/-- Whether the options of an extreme have a property. -/
structure ExtremeOptions.Fit (P : Value → Prop) (options : ExtremeOptions) : Prop where
  key : ∀ f ∈ options.key, P f
  default : ∀ v ∈ options.default, P v

theorem forall_mem_givenKey {key : Value} (hkey : P key) : ∀ f ∈ Eval.givenKey key, P f := by
  unfold Eval.givenKey
  split
  · simp
  · simpa using hkey

/-- The options of `min` and `max` are among the keywords. -/
theorem gives_extremeOptions (function : String) {keywords : Keywords}
    (h : ∀ b ∈ keywords, P b.2) :
    Gives (keywords.foldlM (ExtremeOptions.give function) ⟨none, none⟩)
      (ExtremeOptions.Fit P) := by
  refine Gives.foldlM (fun keyword hkeyword options hoptions => ?_) ⟨by simp, by simp⟩
  have hvalue : P keyword.2 := h keyword hkeyword
  refine gives_ite.2 ⟨fun _ => ?_, fun _ => gives_ite.2 ⟨fun _ => ?_, fun _ => by simp⟩⟩
  · exact ⟨forall_mem_givenKey hvalue, hoptions.default⟩
  · exact ⟨hoptions.key, by simpa using hvalue⟩

namespace Code

variable (hP : Respected P)

include hP

/-! ## Functions over items -/

/-- An operator, with an identity for what it makes. -/
theorem binaryOp {a b : Value} (ha : P a) (hb : P b) (op : BinaryOp) :
    Code P (fun _ => (do a.binaryOp (← Eval.freshId) op b : Eval Value)) P :=
  bind freshId fun id _ => lift (gives_binaryOp hP ha hb id op)

theorem divmod {x y : Value} (hx : P x) (hy : P y) : Code P (fun _ => Eval.divmod x y) P := by
  have hquotient : ∀ id, Gives ((x.binaryOp id .floorDiv y).mapError asDivmod) P := by
    intro id
    have hresult := gives_binaryOp hP hx hy id .floorDiv
    cases hrun : x.binaryOp id .floorDiv y with
    | ok v =>
      rw [hrun] at hresult
      exact hresult
    | error e =>
      rw [hrun] at hresult
      show (asDivmod e).Ordinary
      unfold asDivmod
      split
      · simp
      · exact hresult
  refine bind freshId fun id _ => bind (lift (hquotient id)) fun quotient hq => ?_
  refine bind freshId fun id _ => bind (lift (gives_binaryOp hP hx hy id .mod)) fun rest hr => ?_
  exact newTuple hP (by simp [hq, hr])

theorem sum (r : RealmId) {items : List Value} (hitems : ∀ v ∈ items, P v) {start : Value}
    (hstart : P start) : Code P (fun _ => Eval.sum r items start) P := by
  have hadd : Code P (fun _ => items.foldlM (fun total item => do
      Eval.poll r
      total.binaryOp (← Eval.freshId) .add item) start) P :=
    foldlM (fun item hitem total htotal => bind (poll r) fun _ _ =>
      binaryOp hP htotal (hitems item hitem) .add) hstart
  exact ite (bind (Q := fun _ => True) (throw trivial) fun _ _ => hadd) hadd

omit hP in
theorem nextItem {v : Value} (hv : P v) {default : Option Value} (hdefault : ∀ w ∈ default, P w) :
    Code P (fun _ => Eval.nextItem v default) P := by
  cases v with
  | iterator id =>
    refine bind (step (.takeNext? hv)) fun item hitem => ?_
    cases item with
    | some item => exact pure (hitem item rfl)
    | none =>
      cases default with
      | some w => exact pure (hdefault w rfl)
      | none => exact throw trivial
  | _ => exact throw trivial

theorem reversed {v : Value} (hv : P v) : Code P (fun _ => Eval.reversed v) P := by
  unfold Eval.reversed
  cases hitems : v.items? with
  | some items =>
    exact newIterator fun w hw => hP.items hv hitems w (List.mem_reverse.1 hw)
  | none => exact throw trivial

/-! ## Functions with a key -/

omit hP in
/-- An item asks for at most one call, that of the key function. -/
theorem withKey (r : RealmId) {key : Option Value} (hkey : ∀ f ∈ key, P f) {item : Value}
    (hitem : P item) : Code P (fun call => Eval.withKey (call r) r key item) fun p => P p.2 := by
  refine bind (poll r) fun _ _ => ?_
  cases key with
  | none => exact pure hitem
  | some f => exact bind (ask r (hkey f rfl) (.ofList (by simpa using hitem))) fun _ _ => pure hitem

/-- Sorting calls the key for each item, and compares keys. -/
theorem sorted (r : RealmId) {given : Bound} (h : given.Fit P) :
    Code P (fun call => Eval.sorted (call r) r given) P := by
  refine bind (iterate hP (h.value hP 0)) fun items hitems => ?_
  refine bind (mapM fun item hitem =>
    withKey r (forall_mem_givenKey (h.value hP 1)) (hitems item hitem)) fun keyed hkeyed => ?_
  refine bind (lift (gives_sortByKey _ keyed)) fun sorted hsorted => newList hP ?_
  exact List.forall_mem_map.2 fun p hp => hkeyed p (hsorted hp)

omit hP in
/-- One round of `min` or `max`. -/
theorem better (r : RealmId) {key : Option Value} (hkey : ∀ f ∈ key, P f) (e : Extreme)
    {best : Option (Value × Value)} (hbest : ∀ p ∈ best, P p.2) {item : Value} (hitem : P item) :
    Code P (fun call => Eval.better (call r) r key e best item) fun best => ∀ p ∈ best, P p.2 := by
  refine bind (withKey r hkey hitem) fun candidate hcandidate => ?_
  cases best with
  | none => exact pure (by simpa using hcandidate)
  | some best =>
    refine bind (lift (ordinary_order _ _ _)) fun order _ => pure ?_
    split
    · simpa using hcandidate
    · exact hbest

theorem extremeItems (function : String) (default : Option Value) {vs : List Value}
    (hvs : ∀ v ∈ vs, P v) :
    Code P (fun _ => Eval.extremeItems function default vs) fun items => ∀ v ∈ items, P v := by
  match vs with
  | [] => exact throw trivial
  | [v] => exact iterate hP (hvs v (by simp))
  | v :: v' :: vs => exact ite (throw trivial) (pure hvs)

/-- The rounds of `min` or `max`. -/
theorem extreme (r : RealmId) (e : Extreme) {args : Arguments} (h : args.Fit P) :
    Code P (fun call => Eval.extreme (call r) r e args) P := by
  refine bind (lift (gives_extremeOptions _ h.keywords.values)) fun options hoptions => ?_
  refine bind (extremeItems hP _ _ h.positional) fun items hitems => ?_
  refine bind (foldlM (I := fun best : Option (Value × Value) => ∀ p ∈ best, P p.2)
    (fun item hitem best hbest => better r hoptions.key e hbest (hitems item hitem)) (by simp))
    fun best hbest => ?_
  cases best with
  | some best => exact pure (hbest best rfl)
  | none =>
    cases hdefault : options.default with
    | some v => exact pure (hoptions.default v hdefault)
    | none => exact throw trivial

/-! ## All functions -/

/-- The items of an argument that may be left out. -/
theorem givenItems {v : Option Value} (hv : ∀ w ∈ v, P w) :
    Code P (fun _ => ((v.map Eval.iterate).getD (Pure.pure []) : Eval (List Value)))
      fun items => ∀ w ∈ items, P w := by
  cases v with
  | none => exact pure (by simp)
  | some v => exact iterate hP (hv v rfl)

/-- A power with a modulus risks a panic. -/
theorem powMod (hb : P (.builtin .pow)) (base exponent modulus : Value) :
    Code P (fun _ => (liftM (base.powMod exponent modulus) : Eval Value)) P := by
  obtain hgives | hpanic := gives_powMod hP base exponent modulus
  · exact lift hgives
  · rw [hpanic]
    exact panic (.power hb)

/-- A builtin function with the arguments bound to its parameters. -/
theorem apply (r : RealmId) {b : Builtin} (hb : P (.builtin b)) {given : Bound} (h : given.Fit P) :
    Code P (fun call => b.apply (call r) r given) P := by
  have hfirst : P (given.value 0) := h.value hP 0
  have hsecond : P (given.value 1) := h.value hP 1
  cases b with
  | abs => exact lift (gives_magnitude hP _)
  | bool => exact pure (hP.atom rfl)
  | complex => exact lift (gives_complexOfParts hP _ _)
  | divmod => exact divmod hP hfirst hsecond
  | float =>
    unfold Builtin.apply
    cases given.value? 0 with
    | none => exact pure (hP.atom rfl)
    | some v => exact lift (gives_toReal hP v)
  | hash =>
    exact bind (lift (ordinary_hash _)) fun _ _ => bind (step .addresses) fun _ _ =>
      pure (hP.atom rfl)
  | hex => exact lift (gives_inRadix hP _ _ _)
  | oct => exact lift (gives_inRadix hP _ _ _)
  | int =>
    unfold Builtin.apply
    cases given.value? 0 with
    | some v => exact lift (gives_toInteger hP v _)
    | none =>
      cases given.value? 1 with
      | none => exact pure (hP.atom rfl)
      | some base => exact throw trivial
  | iter =>
    unfold Builtin.apply
    cases hv : given.value 0 with
    | iterator id => exact pure (hv ▸ hfirst)
    | _ =>
      rw [hv] at hfirst
      exact bind (iterate hP hfirst) fun items hitems => newIterator hitems
  | len => exact bind (lift (ordinary_size _)) fun _ _ => pure (hP.atom rfl)
  | list => exact bind (givenItems hP h.value?) fun _ hitems => newList hP hitems
  | tuple => exact bind (givenItems hP h.value?) fun _ hitems => newTuple hP hitems
  | next => exact nextItem hfirst h.value?
  | pow => exact ite (binaryOp hP hfirst hsecond .pow) (powMod hP hb _ _ _)
  | reversed => exact reversed hP hfirst
  | round => exact lift (gives_rounded hP _ _)
  | sorted => exact sorted hP r h
  | str => exact pure (hP.atom rfl)
  | sum =>
    refine bind (iterate hP hfirst) fun items hitems => sum hP r hitems ?_
    cases hstart : given.value? 1 with
    | none => exact hP.atom rfl
    | some v => exact h.value? v hstart
  | max => exact extreme hP r .greatest (.ofList (by simpa using hfirst))
  | min => exact extreme hP r .least (.ofList (by simpa using hfirst))

/-- A builtin function applied to arguments. -/
theorem builtin (r : RealmId) {b : Builtin} (hb : P (.builtin b)) {args : Arguments}
    (h : args.Fit P) :
    Code P (fun call => b.run (call r) r args) P := by
  have hbound : Code P (fun call => (do
      b.apply (call r) r (← b.signature.bind args) : Eval Value)) P :=
    bind (lift (gives_signatureBind _ h)) fun given hgiven => apply hP r hb hgiven
  have hchecked : Code P (fun call => (do
      if b = .sorted ∧ args.positional.length ≠ 1 then
        MonadExcept.throw (.type (.sortedArity args.positional.length))
      b.apply (call r) r (← b.signature.bind args) : Eval Value)) P :=
    ite (bind (Q := fun _ => True) (throw trivial) fun _ _ => hbound) hbound
  cases b with
  | max => exact extreme hP r .greatest h
  | min => exact extreme hP r .least h
  | _ => exact hchecked

/-! ## Methods -/

omit hP in
theorem joinParts (r : RealmId) (parts : List (List Char)) (items : List Value) :
    Code P (fun _ => ExprLang.joinParts r parts items) fun _ => True := by
  induction items generalizing parts with
  | nil => exact pure trivial
  | cons item items ih =>
    refine bind (poll r) fun _ _ => ?_
    cases item with
    | str s => exact ih _
    | _ => exact throw trivial

/-- A method of a string. -/
theorem applyText (r : RealmId) (m : Method) (s : String) {given : Bound} (h : given.Fit P) :
    Code P (fun _ => m.applyText r s given) P := by
  cases m with
  | upper => exact pure (hP.atom rfl)
  | lower => exact pure (hP.atom rfl)
  | strip => exact bind (lift (ordinary_strippedClass _ _)) fun _ _ => pure (hP.atom rfl)
  | lstrip => exact bind (lift (ordinary_strippedClass _ _)) fun _ _ => pure (hP.atom rfl)
  | rstrip => exact bind (lift (ordinary_strippedClass _ _)) fun _ _ => pure (hP.atom rfl)
  | split =>
    refine bind (lift (ordinary_splitParts _ _ _ _)) fun parts _ => newList hP ?_
    exact List.forall_mem_map.2 fun _ _ => hP.atom rfl
  | startswith => exact bind (lift (ordinary_anyAffix _ _ _ _)) fun _ _ => pure (hP.atom rfl)
  | endswith => exact bind (lift (ordinary_anyAffix _ _ _ _)) fun _ _ => pure (hP.atom rfl)
  | replace =>
    refine bind (lift (ordinary_asText _ _)) fun old _ => ?_
    refine bind (lift (ordinary_asText _ _)) fun new _ => ?_
    refine bind (lift (ordinary_limitOf _)) fun limit _ => ?_
    cases limit with
    | some limit => exact pure (hP.atom rfl)
    | none => exact pure (hP.atom rfl)
  | join =>
    exact bind (iterate hP (h.value hP 0)) fun _ _ => bind (joinParts r _ _) fun _ _ =>
      pure (hP.atom rfl)
  | find =>
    refine bind (lift (ordinary_asText _ _)) fun part _ => ?_
    cases indexOf? part s.toList with
    | some i => exact pure (hP.atom rfl)
    | none => exact pure (hP.atom rfl)
  | count => exact bind (lift (ordinary_asText _ _)) fun _ _ => pure (hP.atom rfl)
  | _ => exact throw trivial

/-- A method of a dict. -/
theorem applyDict (m : Method) {id : Identity} {entries : List (Value × Value)}
    (hentries : P (.dict id entries)) {given : Bound} (h : given.Fit P) :
    Code P (fun _ => m.applyDict entries given) P := by
  have hparts := hP.entries hentries
  cases m with
  | get =>
    refine bind (hash _) fun _ _ => pure ?_
    cases hvalue : valueUnder? entries (given.value 0) with
    | some v => exact hP.under hentries hvalue
    | none => exact h.value hP 1
  | keys => exact newList hP (List.forall_mem_map.2 fun e he => (hparts e he).1)
  | values => exact newList hP (List.forall_mem_map.2 fun e he => (hparts e he).2)
  | items =>
    refine bind (mapM fun e he => newTuple hP ?_) fun items hitems => newList hP hitems
    simpa using hparts e he
  | _ => exact throw trivial

/-- A method applied to arguments. -/
theorem method (r : RealmId) (m : Method) {receiver : Value} (hreceiver : P receiver)
    {args : Arguments} (h : args.Fit P) : Code P (fun _ => m.run r receiver args) P := by
  refine bind (lift (gives_signatureBind _ h)) fun given hgiven => ?_
  split
  · exact applyText hP r m _ hgiven
  · exact applyDict hP m hreceiver hgiven
  · exact lift (gives_applyItems hP m _ _ _)
  · exact lift (gives_applyItems hP m _ _ _)
  · split
    · exact lift (gives_applyNumber hP m _)
    · exact throw trivial

end Code

end ExprLang
