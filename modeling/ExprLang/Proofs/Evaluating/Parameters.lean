import ExprLang.Proofs.Evaluating.Slots
import ExprLang.Proofs.Printing.Proper

/-!
# What parameters are bound to

Whether a call fits a lambda is a matter of four conditions on the declaration and on what the call
hands over (`Params.Takes`). If they hold, each declared name is bound to the value given in order,
or by keyword, or to its own default, and what is left over is collected (`Closure.Binds`);
otherwise the call is a type error (`binds_of_eval`).

That defaults go to their own parameters depends on the parser. A lambda keeps only the defaults
that there are, and a call counts them from the last parameter (`Closure.default?`). Since the
parser allows no parameter without a default after one that has one, this comes out right
(`Closure.fallbacks_eq`), and since it allows no name twice, no keyword is taken by two parameters.
-/

namespace ExprLang

/-! ## Parameters of a call -/

/-- The parameters of a lambda with the values given in order. -/
def Closure.filling (c : Closure Value) (positional : List Value) : Filling where
  positional := Slot.fill (Slot.ofParams c.params.positional c.fallbacks) positional
  keywordOnly := Slot.ofParams c.params.keywordOnly c.keywordDefaults
  collected := []

/-- Whether there is a default exactly for the parameters that are declared with one. -/
def HasDefaults (params : List (Param Expr)) (defaults : List (Option Value)) : Prop :=
  params.map (·.default.isSome) = defaults.map (·.isSome)

theorem HasDefaults.length_eq {params : List (Param Expr)} {defaults : List (Option Value)}
    (h : HasDefaults params defaults) : params.length = defaults.length := by
  simpa using congrArg List.length h

/-- The same for a lambda. -/
structure Closure.HasDefaults (c : Closure Value) : Prop where
  positional : ExprLang.HasDefaults c.params.positional c.defaults
  keywordOnly : ExprLang.HasDefaults c.params.keywordOnly c.keywordDefaults

/-- A closure with its defaults is aligned. -/
theorem Closure.HasDefaults.aligned {c : Closure Value} (h : c.HasDefaults) : c.Aligned :=
  ⟨h.positional.length_eq, h.keywordOnly.length_eq⟩

variable {c : Closure Value}

theorem Closure.names_filling (c : Closure Value) (vs : List Value) :
    (c.filling vs).names = c.params.positional.map (·.name) := by
  unfold filling Filling.names
  rw [Slot.map_name_fill, Slot.map_name_ofParams (Nat.le_of_eq c.length_fallbacks.symm)]

/-- The keyword-only slots are named after their parameters. -/
theorem Closure.keywordOnly_filling (hc : c.Aligned) (vs : List Value) :
    (c.filling vs).keywordOnly.map (·.name) = c.params.keywordOnly.map (·.name) :=
  Slot.map_name_ofParams (Nat.le_of_eq hc.keywordDefaults)

/-- The parameters that are given are the first. -/
theorem Closure.given_filling (c : Closure Value) (vs : List Value) (name : String) :
    (c.filling vs).Given name ↔ name ∈ (c.params.positional.take vs.length).map (·.name) := by
  have hfresh : ∀ slot ∈ Slot.ofParams c.params.positional c.fallbacks, slot.given = none := by
    unfold Slot.ofParams
    rw [← List.map_uncurry_zip_eq_zipWith]
    exact List.forall_mem_map.2 fun _ _ => rfl
  refine (Slot.given_fill hfresh vs name).trans ?_
  rw [List.map_take, List.map_take,
    Slot.map_name_ofParams (Nat.le_of_eq c.length_fallbacks.symm)]

/-- No two positional parameters share a name. -/
theorem Params.Valid.nodup_positional {ps : Params Expr} (h : ps.Valid) :
    (ps.positional.map (·.name)).Nodup := by
  have hdistinct := h.distinct
  unfold Params.declared at hdistinct
  rw [List.append_assoc, List.append_assoc] at hdistinct
  exact (List.nodup_append.1 hdistinct).1

/-- No keyword-only parameter has the name of a positional one. -/
theorem Params.Valid.disjoint {ps : Params Expr} (h : ps.Valid) :
    List.Disjoint (ps.positional.map (·.name)) (ps.keywordOnly.map (·.name)) := by
  have hdistinct := (List.nodup_append.1 h.distinct).1
  intro name hpositional hkeywordOnly
  exact (List.nodup_append.1 hdistinct).2.2 name
    (List.mem_append_left _ hpositional) name hkeywordOnly rfl

/-- Whether a keyword has a place: it names a positional parameter after those that have a value
already, or one that is keyword-only, or no positional one where others are collected. -/
def Params.HasPlaceFor (ps : Params Expr) (given : Nat) (name : String) : Prop :=
  name ∈ (ps.positional.drop given).map (·.name) ∨ name ∈ ps.keywordOnly.map (·.name) ∨
    name ∉ ps.positional.map (·.name) ∧ ps.kwargs.isSome

/-- A keyword can be taken if there is a place for it. -/
theorem Closure.canTake_filling (hvalid : c.params.Valid) (hc : c.Aligned) (vs : List Value)
    (name : String) : (c.filling vs).CanTake c.params.kwargs.isSome name ↔
      c.params.HasPlaceFor vs.length name := by
  have hsplit : name ∈ c.params.positional.map (·.name) ↔
      name ∈ (c.params.positional.take vs.length).map (·.name) ∨
        name ∈ (c.params.positional.drop vs.length).map (·.name) := by
    rw [← List.mem_append, ← List.map_append, List.take_append_drop]
  have honce : ¬(name ∈ (c.params.positional.take vs.length).map (·.name) ∧
      name ∈ (c.params.positional.drop vs.length).map (·.name)) := by
    rintro ⟨htake, hdrop⟩
    rw [List.map_take] at htake
    rw [List.map_drop] at hdrop
    exact List.disjoint_take_drop hvalid.nodup_positional (Nat.le_refl _) htake hdrop
  have hdisjoint : ¬(name ∈ c.params.positional.map (·.name) ∧
      name ∈ c.params.keywordOnly.map (·.name)) := fun h => hvalid.disjoint h.1 h.2
  unfold Params.HasPlaceFor
  constructor
  · rintro ⟨hfirst, htaken⟩
    rw [c.given_filling] at hfirst
    rw [c.names_filling, c.keywordOnly_filling hc] at htaken
    tauto
  · intro h
    refine ⟨?_, ?_⟩
    · rw [c.given_filling]
      tauto
    · rw [c.names_filling, c.keywordOnly_filling hc]
      tauto

/-! ## Defaults -/

theorem map_some_filterMap_id {ν : Type} {l : List (Option ν)} (h : ∀ d ∈ l, d.isSome) :
    (l.filterMap id).map some = l := by
  induction l with
  | nil => rfl
  | cons d l ih =>
    obtain ⟨hd, hl⟩ := List.forall_mem_cons.1 h
    obtain ⟨v, rfl⟩ := Option.isSome_iff_exists.1 hd
    exact congrArg (some v :: ·) (ih hl)

/-- Defaults of which none is missing after one that is there come after those that are missing. -/
theorem eq_replicate_append {ν : Type} {l : List (Option ν)}
    (h : l.Pairwise fun d d' => d.isSome → d'.isSome) :
    ∃ k, l = List.replicate k none ++ (l.filterMap id).map some := by
  induction l with
  | nil => exact ⟨0, rfl⟩
  | cons d l ih =>
    obtain ⟨hd, hl⟩ := List.pairwise_cons.1 h
    cases d with
    | none =>
      obtain ⟨k, hk⟩ := ih hl
      exact ⟨k + 1, congrArg (none :: ·) hk⟩
    | some v =>
      have hall : ∀ d ∈ l, d.isSome := fun d hmem => hd d hmem rfl
      exact ⟨0, congrArg (some v :: ·) (map_some_filterMap_id hall).symm⟩

/-- No parameter without a default stands behind one with a default. -/
theorem Closure.HasDefaults.ordered (hvalid : c.params.Valid) (h : c.HasDefaults) :
    c.defaults.Pairwise fun d d' => d.isSome → d'.isSome := by
  have hparams : (c.params.positional.map (·.default.isSome)).Pairwise fun a b : Bool => a → b :=
    List.pairwise_map.2 hvalid.ordered
  rw [h.positional] at hparams
  exact List.pairwise_map.1 hparams

/-- Counted from the right, each default belongs to its own parameter. -/
theorem Closure.fallbacks_eq (hvalid : c.params.Valid) (h : c.HasDefaults) :
    c.fallbacks = c.defaults := by
  obtain ⟨k, hk⟩ := eq_replicate_append (h.ordered hvalid)
  change c.defaults = List.replicate k none ++ c.defaultValues.map some at hk
  have hlength : c.params.positional.length = k + c.defaultValues.length := by
    rw [h.positional.length_eq, hk]
    simp
  have hrequired : c.requiredCount = k := by
    unfold requiredCount
    omega
  refine List.ext_getElem? fun i => ?_
  rw [fallbacks, List.getElem?_map, hk]
  unfold default?
  rw [hrequired, hlength]
  rcases Nat.lt_or_ge i k with hlt | hge
  · rw [List.getElem?_append_left (by simpa using hlt), List.getElem?_range (by omega),
      List.getElem?_replicate_of_lt hlt, Option.map_some, if_neg (by omega)]
  · rw [List.getElem?_append_right (by simpa using hge), List.length_replicate, List.getElem?_map]
    rcases Nat.lt_or_ge i (k + c.defaultValues.length) with hlt | hout
    · rw [List.getElem?_range hlt, Option.map_some, if_pos hge]
      rw [List.getElem?_eq_getElem (by omega)]
      rfl
    · rw [List.getElem?_eq_none (by simpa using hout), List.getElem?_eq_none (by omega)]
      rfl

/-! ## Frames -/

/-- The parameters of a lambda with all that a call gives to them. -/
def Closure.filled (c : Closure Value) (args : Arguments) : Filling :=
  (c.filling args.positional).withKeywords args.keywords

/-- The variables that a call makes of the parameters, if none of them is without a value. -/
def Closure.frame (c : Closure Value) (tupleId dictId : Identity) (positional : List Value)
    (f : Filling) : Scope :=
  Slot.entries f.positional
    ++ (c.params.varargs.map fun name =>
      (name, Value.tuple tupleId (positional.drop c.params.positional.length))).toList
    ++ Slot.entries f.keywordOnly
    ++ (c.params.kwargs.map fun name =>
      (name, Value.dict dictId (f.collected.map fun (key, v) => (.str key, v)))).toList

/-- Whether each of some parameters has a value by keyword or by default. -/
def Supplied (params : List (Param Expr)) (keywords : Keywords) : Prop :=
  ∀ p ∈ params, p.name ∈ keywords.map (·.1) ∨ p.default.isSome

/-- When a call fits the parameters of a lambda. -/
structure Params.Takes (ps : Params Expr) (args : Arguments) : Prop where
  room : args.positional.length ≤ ps.positional.length ∨ ps.varargs.isSome
  keywords : ∀ name ∈ args.keywords.map (·.1), ps.HasPlaceFor args.positional.length name
  positional : Supplied (ps.positional.drop args.positional.length) args.keywords
  keywordOnly : Supplied ps.keywordOnly args.keywords

/-- A parameter has a value by default if it is written with one. -/
theorem HasDefaults.isSome_join {params : List (Param Expr)} {defaults : List (Option Value)}
    (h : HasDefaults params defaults) {i : Nat} (hi : i < params.length) :
    defaults[i]?.join.isSome = params[i].default.isSome := by
  have hi' : i < defaults.length := h.length_eq ▸ hi
  have hat := congrArg (·[i]?) h
  simp only [List.getElem?_map, List.getElem?_eq_getElem hi, List.getElem?_eq_getElem hi',
    Option.map_some, Option.some.injEq] at hat
  rw [List.getElem?_eq_getElem hi', Option.join_some, hat]

/-- The slots of parameters, by place. -/
theorem Slot.ofParams_eq {params : List (Param Expr)} {defaults : List (Option Value)}
    (h : HasDefaults params defaults) :
    Slot.ofParams params defaults =
      params.mapIdx fun i p => ⟨p.name, defaults[i]?.join, none⟩ := by
  refine List.ext_getElem? fun i => ?_
  have hlength := h.length_eq
  rw [ofParams, List.getElem?_zipWith, List.getElem?_mapIdx]
  rcases Nat.lt_or_ge i params.length with hlt | hge
  · rw [List.getElem?_eq_getElem hlt, List.getElem?_eq_getElem (by omega)]
    rfl
  · rw [List.getElem?_eq_none hge]
    rfl

/-- The parameter at each place has the value given for that place or by its name. -/
theorem Closure.positional_filled (hvalid : c.params.Valid) (hc : c.HasDefaults)
    (args : Arguments) : (c.filled args).positional = c.params.positional.mapIdx fun i p =>
      ⟨p.name, c.defaults[i]?.join, args.keywords.lookup p.name <|> args.positional[i]?⟩ := by
  refine List.ext_getElem? fun i => ?_
  unfold filled filling Filling.withKeywords
  dsimp only
  rw [c.fallbacks_eq hvalid hc, Slot.ofParams_eq hc.positional, List.getElem?_map,
    Slot.getElem?_fill, List.getElem?_mapIdx, List.getElem?_mapIdx]
  cases c.params.positional[i]? with
  | none => rfl
  | some p => simp [Slot.withKeywords]

/-- The keyword-only slots after all keywords are taken. -/
theorem Closure.keywordOnly_filled (hc : c.HasDefaults) (args : Arguments) :
    (c.filled args).keywordOnly = c.params.keywordOnly.mapIdx fun i p =>
      ⟨p.name, c.keywordDefaults[i]?.join, args.keywords.lookup p.name⟩ := by
  refine List.ext_getElem? fun i => ?_
  unfold filled filling Filling.withKeywords
  dsimp only
  rw [Slot.ofParams_eq hc.keywordOnly, List.getElem?_map, List.getElem?_mapIdx,
    List.getElem?_mapIdx]
  cases c.params.keywordOnly[i]? with
  | none => rfl
  | some p => simp [Slot.withKeywords]

theorem forall_mem_mapIdx {α β : Type} {l : List α} {f : Nat → α → β} {P : β → Prop} :
    (∀ b ∈ l.mapIdx f, P b) ↔ ∀ (i : Nat) (h : i < l.length), P (f i l[i]) := by
  simp only [List.mem_mapIdx]
  exact ⟨fun h i hi => h _ ⟨i, hi, rfl⟩, fun h _ ⟨i, hi, heq⟩ => heq ▸ h i hi⟩

theorem forall_mem_drop {α : Type} {l : List α} {n : Nat} {P : α → Prop} :
    (∀ a ∈ l.drop n, P a) ↔ ∀ (i : Nat) (h : i < l.length), n ≤ i → P l[i] := by
  simp only [List.mem_drop_iff_getElem]
  constructor
  · intro h i hi hn
    exact h _ ⟨i - n, by omega, by congr 1; omega⟩
  · rintro h a ⟨j, hj, rfl⟩
    exact h (n + j) (by omega) (Nat.le_add_right n j)

/-- No positional slot stays empty exactly if all the rest of the parameters are supplied. -/
theorem Closure.positional_filled_iff (hvalid : c.params.Valid) (hc : c.HasDefaults)
    (args : Arguments) : (∀ slot ∈ (c.filled args).positional, slot.value?.isSome) ↔
      Supplied (c.params.positional.drop args.positional.length) args.keywords := by
  rw [c.positional_filled hvalid hc, forall_mem_mapIdx, Supplied, forall_mem_drop]
  refine forall₂_congr fun i hi => ?_
  have hgiven : args.positional[i]?.isSome ↔ ¬args.positional.length ≤ i := by simp
  simp only [Slot.value?, Option.orElse_eq_orElse, Option.orElse_eq_or, Option.isSome_or,
    Bool.or_eq_true, hc.positional.isSome_join hi, Keywords.isSome_lookup_iff, hgiven]
  tauto

/-- No keyword-only slot stays empty exactly if all keyword-only parameters are supplied. -/
theorem Closure.keywordOnly_filled_iff (hc : c.HasDefaults) (args : Arguments) :
    (∀ slot ∈ (c.filled args).keywordOnly, slot.value?.isSome) ↔
      Supplied c.params.keywordOnly args.keywords := by
  rw [c.keywordOnly_filled hc, forall_mem_mapIdx, Supplied, List.forall_mem_iff_getElem]
  refine forall₂_congr fun i hi => ?_
  simp only [Slot.value?, Option.orElse_eq_orElse, Option.orElse_eq_or, Option.isSome_or,
    Bool.or_eq_true, hc.keywordOnly.isSome_join hi, Keywords.isSome_lookup_iff]

theorem not_isEmpty_iff {α : Type} {l : List α} : (!l.isEmpty) = true ↔ ¬l = [] := by
  cases l <;> simp

/-- There are too many positional arguments if they are more than the parameters, and nothing
collects them. -/
theorem Closure.crowded_iff (c : Closure Value) {vs : List Value} :
    (c.params.varargs.isNone && !(vs.drop c.params.positional.length).isEmpty) = true ↔
      ¬(vs.length ≤ c.params.positional.length ∨ c.params.varargs.isSome) := by
  rw [Bool.and_eq_true, not_isEmpty_iff, List.drop_eq_nil_iff, Option.isNone_iff_eq_none,
    ← Option.not_isSome_iff_eq_none]
  tauto

/-- The four conditions on a call, in the order in which they are checked. -/
theorem Params.takes_iff {ps : Params Expr} {args : Arguments} :
    (args.positional.length ≤ ps.positional.length ∨ ps.varargs.isSome) ∧
      (∀ name ∈ args.keywords.map (·.1), ps.HasPlaceFor args.positional.length name) ∧
      Supplied (ps.positional.drop args.positional.length) args.keywords ∧
      Supplied ps.keywordOnly args.keywords ↔ ps.Takes args :=
  ⟨fun ⟨room, keywords, positional, keywordOnly⟩ => ⟨room, keywords, positional, keywordOnly⟩,
    fun h => ⟨h.room, h.keywords, h.positional, h.keywordOnly⟩⟩

/-- The four conditions in the order in which a call is checked for them. -/
theorem Closure.bind_spec (hvalid : c.params.Valid) (hc : c.HasDefaults)
    (tupleId dictId : Identity) {args : Arguments}
    (hdistinct : (args.keywords.map (·.1)).Nodup) :
    OkIff (c.params.Takes args) (c.bind tupleId dictId args)
      (c.frame tupleId dictId args.positional (c.filled args)) := by
  have hdisjoint : List.Disjoint (c.filling args.positional).names
      ((c.filling args.positional).keywordOnly.map (·.name)) := by
    rw [c.names_filling, c.keywordOnly_filling hc.aligned]
    exact hvalid.disjoint
  have hkeywords := (fillKeywords_spec c.params.kwargs.isSome hdistinct hdisjoint).congr <|
    forall₂_congr fun name _ => c.canTake_filling hvalid hc.aligned args.positional name
  have hpositional : (!(Slot.missing (c.filled args).positional).isEmpty) = true ↔
      ¬Supplied (c.params.positional.drop args.positional.length) args.keywords := by
    rw [not_isEmpty_iff, Slot.missing_eq_nil_iff, c.positional_filled_iff hvalid hc]
  have hkeywordOnly : (!(Slot.missing (c.filled args).keywordOnly).isEmpty) = true ↔
      ¬Supplied c.params.keywordOnly args.keywords := by
    rw [not_isEmpty_iff, Slot.missing_eq_nil_iff, c.keywordOnly_filled_iff hc]
  refine (OkIff.ite c.crowded_iff ⟨_, rfl⟩ <| hkeywords.bind <| OkIff.ite hpositional ⟨_, rfl⟩ <|
    OkIff.ite hkeywordOnly ⟨_, rfl⟩ <| OkIff.pure _).congr ?_
  rw [and_true]
  exact Params.takes_iff

/-! ## What is bound -/

/-- Keywords leave the names of the positional slots. -/
theorem Closure.filled_names (c : Closure Value) (args : Arguments) :
    (c.filled args).positional.map (·.name) = c.params.positional.map (·.name) :=
  (Slot.map_name_withKeywords _ _).trans (c.names_filling args.positional)

/-- Keywords leave the names of the keyword-only slots. -/
theorem Closure.filled_keywordOnly (hc : c.Aligned) (args : Arguments) :
    (c.filled args).keywordOnly.map (·.name) = c.params.keywordOnly.map (·.name) :=
  (Slot.map_name_withKeywords _ _).trans (c.keywordOnly_filling hc args.positional)

/-- The keywords of a call that no parameter has the name of. -/
def Params.surplus (ps : Params Expr) (keywords : Keywords) : Keywords :=
  keywords.filter fun k =>
    k.1 ∉ ps.positional.map (·.name) ∧ k.1 ∉ ps.keywordOnly.map (·.name)

/-- The keywords without a parameter are collected. -/
theorem Closure.collected_filled (hc : c.Aligned) (args : Arguments) :
    (c.filled args).collected = c.params.surplus args.keywords := by
  unfold filled Filling.withKeywords
  dsimp only
  rw [show (c.filling args.positional).collected = [] from rfl, List.nil_append, Filling.surplus,
    c.names_filling, c.keywordOnly_filling hc]
  rfl

/-- What variables a call of a lambda makes: those of the declared names, each with the value
given in order, or else by keyword, or else its own default, and with what is left over in those
that collect. -/
structure Closure.Binds (c : Closure Value) (tupleId dictId : Identity) (args : Arguments)
    (frame : Scope) : Prop where
  names : frame.map (·.1) = c.params.declared
  positional : ∀ (i : Nat) (h : i < c.params.positional.length),
    frame.lookup c.params.positional[i].name =
      (args.positional[i]? <|> args.keywords.lookup c.params.positional[i].name <|>
        c.defaults[i]?.join)
  keywordOnly : ∀ (i : Nat) (h : i < c.params.keywordOnly.length),
    frame.lookup c.params.keywordOnly[i].name =
      (args.keywords.lookup c.params.keywordOnly[i].name <|> c.keywordDefaults[i]?.join)
  varargs : ∀ name ∈ c.params.varargs, frame.lookup name =
    some (.tuple tupleId (args.positional.drop c.params.positional.length))
  kwargs : ∀ name ∈ c.params.kwargs, frame.lookup name =
    some (.dict dictId ((c.params.surplus args.keywords).map fun (key, v) => (.str key, v)))

/-- A frame binds each parameter once. -/
theorem Closure.names_frame (hc : c.HasDefaults) (tupleId dictId : Identity) {args : Arguments}
    (hpositional : ∀ slot ∈ (c.filled args).positional, slot.value?.isSome)
    (hkeywordOnly : ∀ slot ∈ (c.filled args).keywordOnly, slot.value?.isSome) :
    (c.frame tupleId dictId args.positional (c.filled args)).map (·.1) = c.params.declared := by
  unfold frame Params.declared
  rw [List.map_append, List.map_append, List.map_append, Slot.map_fst_entries hpositional,
    Slot.map_fst_entries hkeywordOnly, c.filled_names, c.filled_keywordOnly hc.aligned]
  cases c.params.varargs <;> cases c.params.kwargs <;> rfl

/-- A parameter that has a value in order is given none by keyword. -/
theorem Closure.lookup_keyword_eq_none (hvalid : c.params.Valid) (hc : c.Aligned)
    {args : Arguments} (h : c.params.Takes args) {i : Nat} (hi : i < c.params.positional.length)
    (hgiven : i < args.positional.length) :
    args.keywords.lookup c.params.positional[i].name = none := by
  rw [Keywords.lookup_eq_none_iff]
  intro hmem
  refine ((c.canTake_filling hvalid hc args.positional _).2 (h.keywords _ hmem)).first ?_
  rw [c.given_filling]
  exact List.mem_map_of_mem (List.mem_take_iff_getElem.2 ⟨i, by omega, rfl⟩)

/-- In a frame with distinct names, the variable of a parameter has the value of its slot. -/
theorem Closure.lookup_frame {tupleId dictId : Identity} {vs : List Value} {f : Filling}
    (hdistinct : ((c.frame tupleId dictId vs f).map (·.1)).Nodup) {slot : Slot}
    (hmem : slot ∈ f.positional ∨ slot ∈ f.keywordOnly) (hvalue : slot.value?.isSome) :
    (c.frame tupleId dictId vs f).lookup slot.name = slot.value? := by
  obtain ⟨v, hv⟩ := Option.isSome_iff_exists.1 hvalue
  rw [hv]
  refine lookup_of_mem hdistinct ?_
  unfold frame
  rcases hmem with hmem | hmem
  · simp [Slot.mem_entries hmem hv]
  · simp [Slot.mem_entries hmem hv]

/-- The frame of a call that takes its arguments binds them as it should. -/
theorem Closure.binds_frame (hvalid : c.params.Valid) (hc : c.HasDefaults)
    (tupleId dictId : Identity) {args : Arguments} (h : c.params.Takes args) :
    c.Binds tupleId dictId args (c.frame tupleId dictId args.positional (c.filled args)) := by
  have hpositional := (c.positional_filled_iff hvalid hc args).2 h.positional
  have hkeywordOnly := (c.keywordOnly_filled_iff hc args).2 h.keywordOnly
  have hnames := c.names_frame hc tupleId dictId hpositional hkeywordOnly
  have hdistinct : ((c.frame tupleId dictId args.positional (c.filled args)).map (·.1)).Nodup := by
    rw [hnames]
    exact hvalid.distinct
  constructor
  case names => exact hnames
  case positional =>
    intro i hi
    have hslots := fun slot hslot =>
      c.lookup_frame hdistinct (.inl hslot) (hpositional slot hslot)
    rw [c.positional_filled hvalid hc, forall_mem_mapIdx] at hslots
    refine (hslots i hi).trans ?_
    cases hgiven : args.positional[i]? with
    | none => simp [Slot.value?]
    | some v =>
      have hlt : i < args.positional.length := (List.getElem?_eq_some_iff.1 hgiven).1
      rw [c.lookup_keyword_eq_none hvalid hc.aligned h hi hlt]
      rfl
  case keywordOnly =>
    intro i hi
    have hslots := fun slot hslot =>
      c.lookup_frame hdistinct (.inr hslot) (hkeywordOnly slot hslot)
    rw [c.keywordOnly_filled hc, forall_mem_mapIdx] at hslots
    exact hslots i hi
  case varargs =>
    intro name hname
    refine lookup_of_mem hdistinct ?_
    rw [Closure.frame, Option.mem_def.1 hname]
    simp
  case kwargs =>
    intro name hname
    refine lookup_of_mem hdistinct ?_
    rw [Closure.frame, Option.mem_def.1 hname, c.collected_filled hc.aligned]
    simp

/-! ## Lambdas from sources -/

variable {call : RealmCaller} {r : RealmId} {scope : Scope} {s s' : Store}

theorem isSome_of_evalOption {e : Option Expr} {d : Option Value}
    (h : evalOption call r scope e s = .ok d s') : e.isSome = d.isSome := by
  cases e with
  | none => cases h; rfl
  | some e =>
    obtain ⟨v, s₁, -, h⟩ := run_eq_ok h
    cases h
    rfl

/-- The defaults of a lambda that was evaluated go with its parameters. -/
theorem OwnDefaults.hasDefaults {params : List (Param Expr)} {defaults : List (Option Value)}
    (h : OwnDefaults call r scope params defaults) : HasDefaults params defaults := by
  induction h with
  | nil => rfl
  | @cons p d params defaults hp _ ih =>
    obtain ⟨s, s', hp⟩ := hp
    exact congrArg₂ List.cons (isSome_of_evalOption hp) ih

/-- Whether no index of a default leaves the list that it is looked up in. -/
structure Closure.InBounds (c : Closure Value) : Prop where
  enough : c.defaultValues.length ≤ c.params.positional.length
  default : ∀ i < c.params.positional.length, c.requiredCount ≤ i →
    i - c.requiredCount < c.defaultValues.length
  keywordDefault : c.params.keywordOnly.length = c.keywordDefaults.length

/-- A closure with its defaults has a slot for each place. -/
theorem Closure.HasDefaults.inBounds (h : c.HasDefaults) : c.InBounds := by
  have henough : c.defaultValues.length ≤ c.params.positional.length := by
    rw [h.positional.length_eq]
    exact List.length_filterMap_le _ _
  refine ⟨henough, fun i hi hrequired => ?_, h.keywordOnly.length_eq⟩
  unfold requiredCount at *
  omega

theorem binds_of_eval {e body : Expr} {params : Params Expr} {v : Value} (hread : e.IsRead)
    (hinside : e.Contains (.lambda params body))
    (heval : eval call r scope (.lambda params body) s = .ok v s') :
    ∃ id c, v = .function id c ∧ c.params = params ∧ c.InBounds ∧
      OwnDefaults call r scope params.positional c.defaults ∧
      OwnDefaults call r scope params.keywordOnly c.keywordDefaults ∧
      ∀ tupleId dictId args, (args.keywords.map (·.1)).Nodup →
        (params.Takes args → ∃ frame, c.bind tupleId dictId args = .ok frame ∧
          c.Binds tupleId dictId args frame) ∧
        (¬params.Takes args → ∃ cause, c.bind tupleId dictId args = .error (.type cause)) := by
  have hvalid : params.Valid := (hread.all_isProper _ hinside).1
  obtain ⟨id, defaults, keywordDefaults, hv, hdefaults, hkeywordDefaults⟩ := function_of_eval heval
  have hc : Closure.HasDefaults ⟨params, body, defaults, keywordDefaults, scope, r⟩ :=
    ⟨hdefaults.hasDefaults, hkeywordDefaults.hasDefaults⟩
  refine ⟨id, _, hv, rfl, hc.inBounds, hdefaults, hkeywordDefaults, ?_⟩
  intro tupleId dictId args hdistinct
  have hspec := Closure.bind_spec hvalid hc tupleId dictId hdistinct
  exact ⟨fun h => ⟨_, hspec.ok h, Closure.binds_frame hvalid hc tupleId dictId h⟩, hspec.error⟩

/-- The lambda `lambda x, y=2: x` called with one value. -/
theorem binds_of_eval_default :
    let params : Params Expr :=
      ⟨[⟨"x", none⟩, ⟨"y", some (.literal (.int 2))⟩], none, [], none⟩
    ∃ id c s, eval (fun _ f _ => return f) 0 [] (.lambda params (.var "x")) Store.empty =
      .ok (.function id c) s ∧ ∃ frame, c.bind 0 1 (.ofList [.int 1]) = .ok frame ∧
        frame.lookup "x" = some (.int 1) ∧ frame.lookup "y" = some (.int 2) := by
  intro params
  have hread : Expr.IsRead (.lambda params (.var "x")) :=
    @Expr.IsRead.source _ "lambda x, y=2: x" (by with_unfolding_all rfl)
  have heval : eval (fun _ f _ => return f) 0 [] (.lambda params (.var "x")) Store.empty =
      .ok (.function 0 ⟨params, .var "x", [none, some (.int 2)], [], [], 0⟩)
        { Store.empty with fresh := 1 } := rfl
  obtain ⟨id, c, hv, -, -, -, -, hbinds⟩ := binds_of_eval hread (.refl _) heval
  cases hv
  have hdefault : Supplied [⟨"y", some (.literal (.int 2))⟩] [] :=
    List.forall_mem_singleton.2 (.inr rfl)
  have htakes : params.Takes (.ofList [.int 1]) :=
    ⟨.inl (by decide), fun _ => nofun, hdefault, fun _ => nofun⟩
  obtain ⟨frame, hframe, hbound⟩ := (hbinds 0 1 (.ofList [.int 1]) List.nodup_nil).1 htakes
  exact ⟨0, _, _, heval, frame, hframe, hbound.positional 0 (by decide),
    hbound.positional 1 (by decide)⟩

end ExprLang
