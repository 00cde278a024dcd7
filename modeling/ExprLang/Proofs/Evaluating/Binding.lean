import ExprLang.Evaluator
import ExprLang.Proofs.Evaluating.Results

/-!
# Arguments bound to parameters

Arguments fit a property of values if every value that they hand over has it and no keyword occurs
twice (`Arguments.Fit`). Bound to the parameters of a builtin function or a lambda, they leave each
parameter with a value that has the property. That keywords differ matters for the dict of extra
keywords, whose keys they become (`properKeys_collected`); where all values have the property, they
need not differ.
-/

namespace ExprLang

variable {P : Value → Prop}

/-! ## What is handed over -/

/-- Keywords that differ, for values with a property. -/
structure Keywords.Fit (P : Value → Prop) (keywords : Keywords) : Prop where
  values : ∀ b ∈ keywords, P b.2
  distinct : (∀ v, P v) ∨ (keywords.map (·.1)).Nodup

/-- Arguments with a property, and with keywords that differ. -/
structure Arguments.Fit (P : Value → Prop) (args : Arguments) : Prop where
  positional : ∀ v ∈ args.positional, P v
  keywords : args.keywords.Fit P

theorem Keywords.Fit.nil : Keywords.Fit P [] :=
  ⟨by simp, .inr (by simp)⟩

theorem Keywords.Fit.sublist {keywords keywords' : Keywords} (h : keywords.Fit P)
    (hsub : List.Sublist keywords' keywords) : keywords'.Fit P :=
  ⟨fun b hb => h.values b (hsub.subset hb), h.distinct.imp_right (·.sublist (hsub.map _))⟩

theorem Arguments.Fit.ofList {values : List Value} (h : ∀ v ∈ values, P v) :
    (Arguments.ofList values).Fit P :=
  ⟨h, .nil⟩

/-- Any arguments fit the property that every value has. -/
theorem Arguments.fit_any (args : Arguments) : args.Fit fun _ => True :=
  ⟨fun _ _ => trivial, fun _ _ => trivial, .inl fun _ => trivial⟩

/-! ## Slots -/

/-- Whether the values of a slot have a property. -/
structure Slot.Fit (P : Value → Prop) (slot : Slot) : Prop where
  fallback : ∀ v ∈ slot.fallback, P v
  given : ∀ v ∈ slot.given, P v

/-- Slots stay fit when they are filled by position. -/
theorem Slot.fit_fill {slots : List Slot} (hslots : ∀ slot ∈ slots, slot.Fit P)
    {values : List Value} (hvalues : ∀ v ∈ values, P v) :
    ∀ slot ∈ Slot.fill slots values, slot.Fit P := by
  fun_induction Slot.fill slots values with
  | case1 slot slots v vs ih =>
    rw [List.forall_mem_cons] at hslots hvalues
    refine List.forall_mem_cons.2 ⟨⟨hslots.1.fallback, ?_⟩, ih hslots.2 hvalues.2⟩
    simpa using hvalues.1
  | case2 => exact hslots

theorem Slot.fit_give {slots : List Slot} (hslots : ∀ slot ∈ slots, slot.Fit P) (name : String)
    {value : Value} (hvalue : P value) : ∀ slot ∈ Slot.give name value slots, slot.Fit P := by
  refine List.forall_mem_map.2 fun slot hslot => ?_
  split
  · exact ⟨(hslots slot hslot).fallback, by simpa using hvalue⟩
  · exact hslots slot hslot

/-- The slots of parameters are fit if the defaults are. -/
theorem Slot.fit_ofParams {params : List (Param Expr)} {fallbacks : List (Option Value)}
    (h : ∀ o ∈ fallbacks, ∀ v ∈ o, P v) : ∀ slot ∈ Slot.ofParams params fallbacks, slot.Fit P := by
  unfold Slot.ofParams
  rw [← List.map_uncurry_zip_eq_zipWith]
  exact List.forall_mem_map.2 fun p hp => ⟨h p.2 (List.of_mem_zip hp).2, nofun⟩

theorem Slot.fit_entries {slots : List Slot} (hslots : ∀ slot ∈ slots, slot.Fit P) :
    ∀ b ∈ Slot.entries slots, P b.2 := by
  intro b hb
  obtain ⟨slot, hslot, hvalue⟩ := List.mem_filterMap.1 hb
  obtain ⟨v, hv, rfl⟩ := Option.map_eq_some_iff.1 hvalue
  unfold Slot.value? at hv
  cases hgiven : slot.given with
  | some w =>
    rw [hgiven] at hv
    exact (hslots slot hslot).given v (hgiven.trans hv)
  | none =>
    rw [hgiven] at hv
    exact (hslots slot hslot).fallback v hv

/-! ## Builtin functions -/

/-- Whether the arguments of a builtin function have a property. -/
def Bound.Fit (P : Value → Prop) (given : Bound) : Prop :=
  ∀ o ∈ given, ∀ v ∈ o, P v

theorem Bound.Fit.value? {given : Bound} (h : given.Fit P) {i : Nat} :
    ∀ v ∈ given.value? i, P v := by
  intro v hv
  unfold Bound.value? at hv
  cases hi : given[i]? with
  | none => simp [hi] at hv
  | some o => exact h o (List.mem_of_getElem? hi) v (by simpa [hi] using hv)

/-- An argument that is left out is `None`. -/
theorem Bound.Fit.value (hP : Respected P) {given : Bound} (h : given.Fit P) (i : Nat) :
    P (given.value i) := by
  unfold Bound.value
  cases hi : given.value? i with
  | none => exact hP.atom rfl
  | some v => exact h.value? v hi

/-- A keyword of a builtin goes to its slot or is refused. -/
theorem gives_signatureKeyword (sig : Signature) {slots : List Slot}
    (hslots : ∀ slot ∈ slots, slot.Fit P) {keyword : String × Value} (hkeyword : P keyword.2) :
    Gives (sig.giveKeyword slots keyword) fun slots => ∀ slot ∈ slots, slot.Fit P := by
  unfold Signature.giveKeyword
  split
  · simp
  · exact gives_ite.2 ⟨fun _ => by simp, fun _ => Slot.fit_give hslots _ hkeyword⟩

/-- What a builtin is given is among its arguments. -/
theorem gives_signatureBind (sig : Signature) {args : Arguments} (h : args.Fit P) :
    Gives (sig.bind args) (Bound.Fit P) := by
  refine gives_ite.2 ⟨fun _ => by simp, fun _ => ?_⟩
  have hempty : ∀ slot ∈ sig.params.map fun name => (⟨name, none, none⟩ : Slot), slot.Fit P :=
    List.forall_mem_map.2 fun _ _ => ⟨by simp, by simp⟩
  refine Gives.bind (Gives.foldlM (I := fun slots => ∀ slot ∈ slots, slot.Fit P) ?_
    (Slot.fit_fill hempty h.positional)) fun slots hslots => ?_
  · exact fun keyword hkeyword slots hslots =>
      gives_signatureKeyword sig hslots (h.keywords.values keyword hkeyword)
  · split
    · simp
    · exact List.forall_mem_map.2 fun slot hslot => (hslots slot hslot).given

/-! ## Lambdas -/

/-- Whether the values in the course of a call have a property. -/
structure Filling.Fit (P : Value → Prop) (f : Filling) : Prop where
  positional : ∀ slot ∈ f.positional, slot.Fit P
  keywordOnly : ∀ slot ∈ f.keywordOnly, slot.Fit P
  collected : f.collected.Fit P

/-- The keywords still to come are no keywords that were collected, so they may follow them. -/
theorem gives_fillKeywords (collects : Bool) {keywords : Keywords} {f : Filling} (hf : f.Fit P)
    (h : Keywords.Fit P (f.collected ++ keywords)) :
    Gives (keywords.foldlM (Filling.giveKeyword collects) f) (Filling.Fit P) := by
  induction keywords generalizing f with
  | nil => exact hf
  | cons keyword keywords ih =>
    have hkeyword : P keyword.2 := h.values keyword (by simp)
    have hrest : Keywords.Fit P (f.collected ++ keywords) :=
      h.sublist ((List.sublist_cons_self _ _).append_left _)
    refine Gives.bind (Q := fun f => f.Fit P ∧ Keywords.Fit P (f.collected ++ keywords)) ?_
      fun f hf => ih hf.1 hf.2
    unfold Filling.giveKeyword
    split
    · refine gives_ite.2 ⟨fun _ => by simp, fun _ => ?_⟩
      exact ⟨⟨Slot.fit_give hf.positional _ hkeyword, hf.keywordOnly, hf.collected⟩, hrest⟩
    · refine gives_ite.2 ⟨fun _ => ?_, fun _ => gives_ite.2 ⟨fun _ => ?_, fun _ => by simp⟩⟩
      · exact ⟨⟨hf.positional, Slot.fit_give hf.keywordOnly _ hkeyword, hf.collected⟩, hrest⟩
      · rw [List.append_cons] at h
        exact ⟨⟨hf.positional, hf.keywordOnly, h.sublist (List.sublist_append_left _ _)⟩, h⟩

/-- Keywords that differ are the keys of a dict. -/
theorem properKeys_collected {keywords : Keywords} (h : (keywords.map (·.1)).Nodup) :
    ProperKeys ((keywords.map fun (key, v) => (Value.str key, v)).map (·.1)) := by
  have hkeys : (keywords.map fun (key, v) => (Value.str key, v)).map (·.1)
      = (keywords.map (·.1)).map Value.str := by
    simp
  rw [hkeys]
  refine ⟨List.forall_mem_map.2 fun _ _ => ⟨_, rfl⟩, List.pairwise_map.2 (h.imp fun hne => ?_)⟩
  simpa [Value.eq, Value.number?, Value.same] using hne

theorem Closure.mem_defaultValues {ν : Type} (c : Closure ν) {i : Nat} {v : ν}
    (h : v ∈ c.default? i) : v ∈ c.defaultValues := by
  unfold default? at h
  split at h
  · exact List.mem_of_getElem? h
  · cases h

/-- The variables that a call gives a lambda. -/
theorem gives_closureBind (hP : Respected P) {c : Closure Value} (hc : ∀ v ∈ c.parts, P v)
    (tupleId dictId : Identity) {args : Arguments} (h : args.Fit P) :
    Gives (c.bind tupleId dictId args) fun frame => ∀ b ∈ frame, P b.2 := by
  have hfallbacks : (∀ o ∈ c.fallbacks, ∀ v ∈ o, P v) ∧ ∀ o ∈ c.keywordDefaults, ∀ v ∈ o, P v := by
    simp only [Closure.parts, List.forall_mem_append] at hc
    refine ⟨List.forall_mem_map.2 fun i _ v hv => hc.2.1 v (c.mem_defaultValues hv), ?_⟩
    exact fun o ho v hv => hc.2.2 v (List.mem_filterMap.2 ⟨o, ho, hv⟩)
  refine gives_ite.2 ⟨fun _ => by simp, fun _ => ?_⟩
  refine (gives_fillKeywords _ ⟨?_, ?_, .nil⟩ h.keywords).bind fun f hf => ?_
  · exact Slot.fit_fill (Slot.fit_ofParams hfallbacks.1) h.positional
  · exact Slot.fit_ofParams hfallbacks.2
  · refine gives_ite.2 ⟨fun _ => by simp, fun _ => gives_ite.2 ⟨fun _ => by simp, fun _ => ?_⟩⟩
    have htuple : ∀ b ∈ (c.params.varargs.map fun name => (name, Value.tuple tupleId
        (args.positional.drop c.params.positional.length))).toList, P b.2 := by
      simpa using fun _ _ =>
        hP.tuple.2 fun v hv => h.positional v (List.mem_of_mem_drop hv)
    have hdict : ∀ b ∈ (c.params.kwargs.map fun name => (name, Value.dict dictId
        (f.collected.map fun (key, v) => (.str key, v)))).toList, P b.2 := by
      have hentries : ∀ e ∈ f.collected.map fun (key, v) => (Value.str key, v), P e.1 ∧ P e.2 :=
        List.forall_mem_map.2 fun b hb => ⟨hP.atom rfl, hf.collected.values b hb⟩
      have hextra : P (.dict dictId (f.collected.map fun (key, v) => (.str key, v))) :=
        hf.collected.distinct.elim (fun hall => hall _) fun hdistinct =>
          hP.dict hentries (properKeys_collected hdistinct)
      simpa using fun _ _ => hextra
    simp only [gives_pure, List.forall_mem_append]
    exact ⟨⟨⟨Slot.fit_entries hf.positional, htuple⟩, Slot.fit_entries hf.keywordOnly⟩, hdict⟩

/-! ## Arguments of a call -/

/-- A keyword is added or refused. -/
theorem gives_addKeyword {keywords : Keywords} (h : keywords.Fit P) (name : String) {value : Value}
    (hvalue : P value) : Gives (keywords.add name value) (Keywords.Fit P) := by
  unfold Keywords.add
  refine gives_ite.2 ⟨fun _ => by simp, fun hnew => ⟨?_, ?_⟩⟩
  · exact List.forall_mem_append.2 ⟨h.values, by simpa using hvalue⟩
  · have hfree : ∀ v, (name, v) ∉ keywords := by simpa using hnew
    refine h.distinct.imp_right fun hdistinct => ?_
    rw [List.map_append, List.nodup_append]
    refine ⟨hdistinct, by simp, ?_⟩
    simp only [List.forall_mem_map, List.map_singleton, List.mem_singleton, forall_eq]
    exact fun b hb hsame => hfree b.2 (hsame ▸ hb)

/-- A dict is spread into keywords, or refused. -/
theorem gives_addEntries (hP : Respected P) {keywords : Keywords} (h : keywords.Fit P) {v : Value}
    (hv : P v) : Gives (keywords.addEntries v) (Keywords.Fit P) := by
  unfold Keywords.addEntries
  split
  · refine Gives.foldlM (fun entry hentry keywords hkeywords => ?_) h
    unfold Keywords.addEntry
    split
    · exact gives_addKeyword hkeywords _ (hP.entries hv entry hentry).2
    · simp
  · simp

end ExprLang
