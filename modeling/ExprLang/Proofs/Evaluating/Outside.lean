import ExprLang.Proofs.Evaluating.Lines
import Mathlib.Data.List.Forall2

/-!
# Calls from outside

A compiled function can be called in two ways: from outside (`Closure.call`), and by a call
expression that hands over the same values in order and by keyword. What runs inside of the call is
the same (`run_calling`). But a call expression refuses a keyword that it has been given already,
while from outside keywords come as they are, and only the binding of arguments looks at them
(`Closure.bind`). It refuses a second value for a positional parameter, and every keyword that the
function does not take. A keyword-only parameter, and what a `**` parameter collects, may be given
more than once (`Closure.Overrides`), and there the two ways part (`Closure.call_accords`).
-/

namespace ExprLang

variable {α β : Type}

/-! ## Call expressions -/

/-- Whether an expression has a value in a store, whatever calls do, and leaves the store as it
is. -/
def Expr.Denotes (e : Expr) (r : RealmId) (scope : Scope) (s : Store) (v : Value) : Prop :=
  ∀ call, eval call r scope e s = .ok v s

/-- A call expression that hands over values in order, and then values by keyword. -/
def Expr.calling (callee : Expr) (values : List Expr) (keywords : List (String × Expr)) : Expr :=
  .call callee (values.map .positional ++ keywords.map fun k => .keyword k.1 k.2)

section

variable {r : RealmId} {scope : Scope} {s : Store}

/-- Positional arguments give their values, in order. -/
theorem evalArguments_positional (call : RealmCaller) {es : List Expr} {vs : List Value}
    (h : List.Forall₂ (·.Denotes r scope s ·) es vs) (keywords : Keywords)
    (rest : List (Argument Expr)) :
    evalArguments call r scope keywords (es.map .positional ++ rest) s =
      match evalArguments call r scope keywords rest s with
      | .ok args s' => .ok ⟨vs ++ args.positional, args.keywords⟩ s'
      | .error e s' => .error e s' := by
  induction h with
  | nil => cases hrest : evalArguments call r scope keywords rest s <;> exact hrest
  | cons he _ ih =>
    refine (run_ok (he call)).trans ?_
    cases hrest : evalArguments call r scope keywords rest s with
    | ok args s' => exact run_ok (ih.trans (by rw [hrest]))
    | error e s' => exact run_error (ih.trans (by rw [hrest]))

/-- Whether expressions with names have the values that are to be handed over by these names. -/
def KeywordsDenote (r : RealmId) (scope : Scope) (s : Store) (ks : List (String × Expr))
    (keywords : Keywords) : Prop :=
  List.Forall₂ (fun k b => k.1 = b.1 ∧ k.2.Denotes r scope s b.2) ks keywords

/-- A keyword is refused if it was given before. -/
theorem add_eq (before : Keywords) (name : String) (v : Value) :
    before.add name v = if name ∈ before.map (·.1) then .error (.type (.repeatedKeyword name))
      else .ok (before ++ [(name, v)]) := by
  have hany : before.any (·.1 == name) = true ↔ name ∈ before.map (·.1) := by
    simp only [List.any_eq_true, List.mem_map, beq_iff_eq]
  simp only [Keywords.add, hany]

/-- Keywords are handed over if no two are the same. Otherwise some keyword is refused. -/
theorem evalArguments_keyword (call : RealmCaller) {ks : List (String × Expr)}
    {keywords : Keywords} (h : KeywordsDenote r scope s ks keywords) {before : Keywords}
    (hbefore : (before.map (·.1)).Nodup) :
    if ((before ++ keywords).map (·.1)).Nodup then
      evalArguments call r scope before (ks.map fun k => .keyword k.1 k.2) s =
        .ok ⟨[], before ++ keywords⟩ s
    else ∃ name, evalArguments call r scope before (ks.map fun k => .keyword k.1 k.2) s =
      .error (.type (.repeatedKeyword name)) s := by
  induction h generalizing before with
  | nil => rw [List.append_nil, if_pos hbefore]; rfl
  | @cons k b ks keywords hk _ ih =>
    obtain ⟨name, e⟩ := k
    obtain ⟨rfl, he⟩ := hk
    have hadd : (liftM (before.add b.1 b.2) : Eval Keywords) s =
        if b.1 ∈ before.map (·.1) then .error (.type (.repeatedKeyword b.1)) s
        else .ok (before ++ [b]) s := by
      rw [add_eq]
      split <;> rfl
    have hsplit : before ++ b :: keywords = before ++ [b] ++ keywords := by simp
    by_cases hmem : b.1 ∈ before.map (·.1)
    · rw [if_pos hmem] at hadd
      have hrepeated : ¬((before ++ b :: keywords).map (·.1)).Nodup := by
        rw [List.map_append, List.nodup_append]
        exact fun h => h.2.2 b.1 hmem b.1 (by simp) rfl
      rw [if_neg hrepeated]
      exact ⟨b.1, (run_ok (he call)).trans (run_error hadd)⟩
    · rw [if_neg hmem] at hadd
      have hnext : ((before ++ [b]).map (·.1)).Nodup := by
        rw [List.map_append, List.nodup_append]
        refine ⟨hbefore, by simp, ?_⟩
        rintro name hname _ hb rfl
        obtain rfl : name = b.1 := List.mem_singleton.1 hb
        exact hmem hname
      have hstep : evalArguments call r scope before
            (((b.1, e) :: ks).map fun k => .keyword k.1 k.2) s =
          evalArguments call r scope (before ++ [b]) (ks.map fun k => .keyword k.1 k.2) s :=
        (run_ok (he call)).trans (run_ok hadd)
      rw [hsplit, hstep]
      exact ih hnext

end

/-! ## Arguments bound -/

/-- Whether a computation gives a value with `Q`, or fails with an error of type. -/
def Admits (x : Except RuntimeError α) (Q : α → Prop) : Prop :=
  match x with
  | .ok a => Q a
  | .error e => e.kind = .typeError

theorem Admits.bind {x : Except RuntimeError α} {f : α → Except RuntimeError β} {Q : α → Prop}
    {R : β → Prop} (hx : Admits x Q) (hf : ∀ a, Q a → Admits (f a) R) : Admits (x >>= f) R := by
  cases x with
  | ok a => exact hf a hx
  | error e => exact hx

theorem Admits.imp {x : Except RuntimeError α} {Q R : α → Prop} (hx : Admits x Q)
    (h : ∀ a, Q a → R a) : Admits x R := by
  cases x with
  | ok a => exact h a hx
  | error e => exact hx

theorem Admits.ite {Q : α → Prop} {c : Prop} [Decidable c] {x y : Except RuntimeError α}
    (hx : c → Admits x Q) (hy : ¬c → Admits y Q) : Admits (if c then x else y) Q := by
  split
  · next hc => exact hx hc
  · next hc => exact hy hc

/-- The names of the positional parameters. -/
def Filling.names (f : Filling) : List String :=
  f.positional.map (·.name)

/-- Whether a value has been given to a positional parameter. -/
def Filling.Given (f : Filling) (name : String) : Prop :=
  ∃ slot, f.positional.find? (·.name == name) = some slot ∧ slot.given.isSome

/-- Giving a value leaves the names. -/
theorem Slot.map_name_give (name : String) (v : Value) (slots : List Slot) :
    (Slot.give name v slots).map (·.name) = slots.map (·.name) := by
  unfold give
  rw [List.map_map]
  exact List.map_congr_left fun slot _ => by simp only [Function.comp_apply]; split <;> rfl

/-- Giving a value changes the slots with its name, and no others. -/
theorem Slot.find?_give (name other : String) (v : Value) (slots : List Slot) :
    (Slot.give name v slots).find? (·.name == other) =
      (slots.find? (·.name == other)).map fun slot =>
        if slot.name == name then { slot with given := some v } else slot := by
  unfold give
  rw [List.find?_map]
  congr 2
  funext slot
  simp only [Function.comp_apply]
  split <;> rfl

/-- What a keyword says of the parameters before it and after it. -/
structure Filling.Accepts (collects : Bool) (name : String) (f f' : Filling) : Prop where
  names : f'.names = f.names
  keywordOnly : f'.keywordOnly.map (·.name) = f.keywordOnly.map (·.name)
  first : ¬f.Given name
  given : name ∈ f.names → f'.Given name
  kept : ∀ other, f.Given other → f'.Given other
  taken : name ∈ f.names ∨ name ∈ f.keywordOnly.map (·.name) ∨ collects = true

/-- A slot is found by its name. -/
theorem Slot.find?_of_mem {slots : List Slot} {name : String} (h : name ∈ slots.map (·.name)) :
    ∃ slot, slots.find? (·.name == name) = some slot ∧ slot.name = name := by
  obtain ⟨slot, hslot, hname⟩ := List.mem_map.1 h
  have hsome : (slots.find? (·.name == name)).isSome :=
    List.find?_isSome.2 ⟨slot, hslot, by simpa using hname⟩
  obtain ⟨found, hfound⟩ := Option.isSome_iff_exists.1 hsome
  exact ⟨found, hfound, by simpa using List.find?_some hfound⟩

/-- Only positional parameters can be given by position. -/
theorem Filling.Given.mem_names {f : Filling} {name : String} (h : f.Given name) :
    name ∈ f.names := by
  obtain ⟨slot, hfound, -⟩ := h
  exact List.mem_map.2
    ⟨slot, List.mem_of_find?_eq_some hfound, by simpa using List.find?_some hfound⟩

/-- What may become of a keyword. -/
inductive Filling.Receives (collects : Bool) (f : Filling) (b : String × Value) :
    Except RuntimeError Filling → Prop
  | again : f.Given b.1 → Receives collects f b (.error (.type (.multipleValues lambdaName b.1)))
  | positional : b.1 ∈ f.names → ¬f.Given b.1 →
    Receives collects f b (.ok { f with positional := Slot.give b.1 b.2 f.positional })
  | keywordOnly : b.1 ∉ f.names → b.1 ∈ f.keywordOnly.map (·.name) →
    Receives collects f b (.ok { f with keywordOnly := Slot.give b.1 b.2 f.keywordOnly })
  | collected : b.1 ∉ f.names → b.1 ∉ f.keywordOnly.map (·.name) → collects = true →
    Receives collects f b (.ok { f with collected := f.collected ++ [b] })
  | unexpected : b.1 ∉ f.names → b.1 ∉ f.keywordOnly.map (·.name) → ¬collects = true →
    Receives collects f b (.error (.type (.unexpectedKeyword lambdaName b.1)))

/-- A keyword goes to its slot, to the collected ones, or is refused. -/
theorem receives_giveKeyword (collects : Bool) (f : Filling) (b : String × Value) :
    f.Receives collects b (f.giveKeyword collects b) := by
  have hany : f.keywordOnly.any (·.name == b.1) = true ↔ b.1 ∈ f.keywordOnly.map (·.name) := by
    simp only [List.any_eq_true, List.mem_map, beq_iff_eq]
  unfold Filling.giveKeyword
  simp only [hany]
  split
  · next slot hfound =>
    split
    · next hgiven => exact .again ⟨slot, hfound, hgiven⟩
    · next hfree =>
      refine .positional (List.mem_map.2 ⟨slot, List.mem_of_find?_eq_some hfound, ?_⟩) ?_
      · simpa using List.find?_some hfound
      · rintro ⟨slot', hfound', hgiven⟩
        rw [hfound] at hfound'
        exact hfree (Option.some.inj hfound' ▸ hgiven)
  · next hnone =>
    have hnames : b.1 ∉ f.names := by
      intro hmem
      obtain ⟨slot, hfound, -⟩ := Slot.find?_of_mem hmem
      exact nomatch hnone.symm.trans hfound
    split
    · next hkeywordOnly => exact .keywordOnly hnames hkeywordOnly
    · next hother =>
      split
      · next hcollects => exact .collected hnames hother hcollects
      · next hcollects => exact .unexpected hnames hother hcollects

/-- A keyword is let through if it is accepted, and a refusal is a `TypeError`. -/
theorem admits_giveKeyword (collects : Bool) (f : Filling) (b : String × Value) :
    Admits (f.giveKeyword collects b) (f.Accepts collects b.1) := by
  have h := receives_giveKeyword collects f b
  generalize f.giveKeyword collects b = result at h
  cases h with
  | again | unexpected => rfl
  | positional hmem hfree =>
    obtain ⟨slot, hfound, hname⟩ := Slot.find?_of_mem hmem
    refine ⟨Slot.map_name_give b.1 b.2 f.positional, rfl, hfree, fun _ => ?_, ?_, .inl hmem⟩
    · refine ⟨{ slot with given := some b.2 }, ?_, rfl⟩
      dsimp only
      rw [Slot.find?_give, hfound]
      simp [hname]
    · rintro other ⟨slot', hfound', hgiven⟩
      dsimp only [Filling.Given]
      rw [Slot.find?_give, hfound']
      refine ⟨_, rfl, ?_⟩
      dsimp only
      split
      · rfl
      · exact hgiven
  | keywordOnly hnames hmem =>
    exact ⟨rfl, Slot.map_name_give _ _ _, mt Filling.Given.mem_names hnames,
      fun h => absurd h hnames, fun _ h => h, .inr (.inl hmem)⟩
  | collected hnames hother hcollects =>
    exact ⟨rfl, rfl, mt Filling.Given.mem_names hnames, fun h => absurd h hnames, fun _ h => h,
      .inr (.inr hcollects)⟩

/-- Whether a keyword is handed over more than once. -/
def Keywords.Repeats (keywords : Keywords) (name : String) : Prop :=
  2 ≤ (keywords.map (·.1)).count name

/-- Keywords are distinct if none is repeated. -/
theorem Keywords.nodup_iff {keywords : Keywords} :
    (keywords.map (·.1)).Nodup ↔ ∀ name, ¬keywords.Repeats name := by
  rw [List.nodup_iff_count]
  exact forall_congr' fun name => by unfold Repeats; omega

/-- A keyword that a positional parameter has a value from is not taken again. -/
theorem admits_fillKeywords (collects : Bool) (keywords : Keywords) (f : Filling) :
    Admits (keywords.foldlM (Filling.giveKeyword collects) f) fun _ =>
      (∀ name, f.Given name → name ∉ keywords.map (·.1)) ∧
      ∀ name, keywords.Repeats name →
        name ∉ f.names ∧ (name ∈ f.keywordOnly.map (·.name) ∨ collects = true) := by
  induction keywords generalizing f with
  | nil => exact ⟨fun _ _ => List.not_mem_nil, fun name h => by simp [Keywords.Repeats] at h⟩
  | cons b keywords ih =>
    refine (admits_giveKeyword collects f b).bind fun f' hf' => (ih f').imp ?_
    rintro - ⟨hgiven, hrepeated⟩
    constructor
    · intro name hname hmem
      obtain rfl | hmem := List.mem_cons.1 hmem
      · exact hf'.first hname
      · exact hgiven name (hf'.kept name hname) hmem
    · intro name hname
      unfold Keywords.Repeats at hname
      rw [List.map_cons, List.count_cons] at hname
      by_cases hlater : Keywords.Repeats keywords name
      · rw [← hf'.names, ← hf'.keywordOnly]
        exact hrepeated name hlater
      · unfold Keywords.Repeats at hlater
        split at hname
        · next hsame =>
          obtain rfl := beq_iff_eq.1 hsame
          have hmem : b.1 ∈ keywords.map (·.1) := List.count_pos_iff.1 (by omega)
          have hother : b.1 ∉ f.names := fun h => hgiven b.1 (hf'.given h) hmem
          exact ⟨hother, hf'.taken.resolve_left hother⟩
        · omega

/-- Filling by position leaves the names. -/
theorem Slot.map_name_fill (slots : List Slot) (vs : List Value) :
    (Slot.fill slots vs).map (·.name) = slots.map (·.name) := by
  induction slots generalizing vs with
  | nil => rfl
  | cons slot slots ih =>
    cases vs with
    | nil => rfl
    | cons v vs => exact congrArg (slot.name :: ·) (ih vs)

/-- Slots are named after their parameters. -/
theorem Slot.map_name_ofParams {params : List (Param Expr)} {fallbacks : List (Option Value)}
    (h : params.length ≤ fallbacks.length) :
    (Slot.ofParams params fallbacks).map (·.name) = params.map (·.name) := by
  unfold ofParams
  rw [← List.map_uncurry_zip_eq_zipWith, List.map_map]
  calc (params.zip fallbacks).map (·.1.name)
    _ = ((params.zip fallbacks).map (·.1)).map (·.name) := by rw [List.map_map]; rfl
    _ = params.map (·.name) := by rw [List.map_fst_zip h]

/-- Whether a keyword may be handed over more than once, the last value or all of them taken: it is
no positional parameter, and it is keyword-only or collected. -/
structure Closure.Overrides (c : Closure Value) (name : String) : Prop where
  notPositional : name ∉ c.params.positional.map (·.name)
  taken : name ∈ c.params.keywordOnly.map (·.name) ∨ c.params.kwargs.isSome

/-- Whether a function has a default, or none, for each of its parameters. -/
structure Closure.Aligned (c : Closure Value) : Prop where
  defaults : c.params.positional.length = c.defaults.length
  keywordDefaults : c.params.keywordOnly.length = c.keywordDefaults.length

theorem Closure.length_fallbacks {ν : Type} (c : Closure ν) :
    c.fallbacks.length = c.params.positional.length := by
  simp [fallbacks]

/-- A closure lets a repeated keyword through only where it overrides one. -/
theorem admits_closureBind {c : Closure Value} (hc : c.Aligned) (tupleId dictId : Identity)
    (args : Arguments) : Admits (c.bind tupleId dictId args) fun _ =>
      ∀ name, args.keywords.Repeats name → c.Overrides name := by
  refine .ite (fun _ => rfl) fun _ => (admits_fillKeywords _ _ _).bind fun filled hfilled => ?_
  refine .ite (fun _ => rfl) fun _ => .ite (fun _ => rfl) fun _ name hname => ?_
  have htaken := hfilled.2 name hname
  dsimp only [Filling.names] at htaken
  rw [Slot.map_name_fill, Slot.map_name_ofParams (Nat.le_of_eq c.length_fallbacks.symm),
    Slot.map_name_ofParams (Nat.le_of_eq hc.keywordDefaults)] at htaken
  exact ⟨htaken.1, htaken.2⟩

/-! ## Values taken back -/

theorem Slot.give_give (name : String) (v w : Value) (slots : List Slot) :
    Slot.give name w (Slot.give name v slots) = Slot.give name w slots := by
  unfold give
  rw [List.map_map]
  refine List.map_congr_left fun slot _ => ?_
  simp only [Function.comp_apply]
  split <;> simp [*]

/-- Values for different names are given in any order. -/
theorem Slot.give_comm {name other : String} (hother : other ≠ name) (v w : Value)
    (slots : List Slot) : Slot.give other w (Slot.give name v slots) =
      Slot.give name v (Slot.give other w slots) := by
  unfold give
  rw [List.map_map, List.map_map]
  refine List.map_congr_left fun slot _ => ?_
  simp only [Function.comp_apply]
  by_cases hname : slot.name = name <;> by_cases hslot : slot.name = other <;> simp_all

/-- The parameters with a value given to a keyword-only one. -/
def Filling.give (f : Filling) (name : String) (v : Value) : Filling :=
  { f with keywordOnly := Slot.give name v f.keywordOnly }

/-- Giving a value makes no slot and takes none away. -/
theorem Slot.any_give (name other : String) (v : Value) (slots : List Slot) :
    (Slot.give name v slots).any (·.name == other) = slots.any (·.name == other) := by
  have hany : ∀ slots : List Slot,
      slots.any (·.name == other) = (slots.map (·.name)).any (· == other) := fun slots => by
    rw [List.any_map]
    rfl
  rw [hany, hany, map_name_give]

/-- A keyword goes where it would have gone without another that is in its slot. -/
theorem Filling.giveKeyword_give (collects : Bool) {name other : String} (hother : other ≠ name)
    (f : Filling) (v w : Value) : (f.give name v).giveKeyword collects (other, w) =
      (f.giveKeyword collects (other, w)).map (·.give name v) := by
  unfold giveKeyword give
  dsimp only
  rw [Slot.any_give]
  split
  · split <;> rfl
  · split
    · rw [Slot.give_comm hother]
      rfl
    · split <;> rfl

/-- A keyword for a keyword-only parameter is always taken. -/
theorem giveKeyword_keywordOnly (collects : Bool) {f : Filling} {name : String} (v : Value)
    (hnot : name ∉ f.names) (hname : name ∈ f.keywordOnly.map (·.name)) :
    f.giveKeyword collects (name, v) = .ok (f.give name v) := by
  have h := receives_giveKeyword collects f (name, v)
  generalize f.giveKeyword collects (name, v) = result at h
  cases h with
  | again hgiven => exact absurd hgiven.mem_names hnot
  | positional hmem => exact absurd hmem hnot
  | keywordOnly => rfl
  | collected _ hother => exact absurd hname hother
  | unexpected _ hother => exact absurd hname hother

/-- What is given to a keyword-only parameter counts for nothing if it is given another value. -/
theorem fillKeywords_give (collects : Bool) {f : Filling} {name : String} (v : Value)
    (hnot : name ∉ f.names) (hname : name ∈ f.keywordOnly.map (·.name)) {keywords : Keywords}
    (hlater : name ∈ keywords.map (·.1)) :
    keywords.foldlM (Filling.giveKeyword collects) (f.give name v) =
      keywords.foldlM (Filling.giveKeyword collects) f := by
  induction keywords generalizing f with
  | nil => cases hlater
  | cons b keywords ih =>
    obtain ⟨other, w⟩ := b
    rw [List.foldlM_cons, List.foldlM_cons]
    by_cases hother : other = name
    · subst hother
      have hname' : other ∈ (f.give other v).keywordOnly.map (·.name) := by
        rwa [Filling.give, Slot.map_name_give]
      rw [giveKeyword_keywordOnly collects w hnot hname,
        giveKeyword_keywordOnly (f := f.give other v) collects w hnot hname']
      simp only [Filling.give, Slot.give_give]
    · rw [f.giveKeyword_give collects hother]
      have hlater' := (List.mem_cons.1 hlater).resolve_left (Ne.symm hother)
      have hadmits := admits_giveKeyword collects f (other, w)
      cases hgiven : f.giveKeyword collects (other, w) with
      | error e => rfl
      | ok f' =>
        rw [hgiven] at hadmits
        exact ih (hadmits.names ▸ hnot) (hadmits.keywordOnly ▸ hname) hlater'

/-- A keyword for a keyword-only parameter is forgotten if it is given again. -/
theorem fillKeywords_overridden (collects : Bool) {f : Filling} {name : String} (v : Value)
    (hnot : name ∉ f.names) (hname : name ∈ f.keywordOnly.map (·.name)) (before : Keywords)
    {after : Keywords} (hlater : name ∈ after.map (·.1)) :
    (before ++ (name, v) :: after).foldlM (Filling.giveKeyword collects) f =
      (before ++ after).foldlM (Filling.giveKeyword collects) f := by
  induction before generalizing f with
  | nil =>
    rw [List.nil_append, List.foldlM_cons, giveKeyword_keywordOnly collects v hnot hname]
    exact fillKeywords_give collects v hnot hname hlater
  | cons b before ih =>
    have hadmits := admits_giveKeyword collects f b
    rw [List.cons_append, List.cons_append, List.foldlM_cons, List.foldlM_cons]
    cases hgiven : f.giveKeyword collects b with
    | error e => rfl
    | ok f' =>
      rw [hgiven] at hadmits
      exact ih (hadmits.names ▸ hnot) (hadmits.keywordOnly ▸ hname)

/-- From outside a keyword-only parameter has the last value that is given to it. -/
theorem bind_overridden {c : Closure Value} (hc : c.Aligned) (tupleId dictId : Identity)
    (positional : List Value) {name : String} (v : Value) (hname : c.Overrides name)
    (hkeywordOnly : name ∈ c.params.keywordOnly.map (·.name)) (before : Keywords)
    {after : Keywords} (hlater : name ∈ after.map (·.1)) :
    c.bind tupleId dictId ⟨positional, before ++ (name, v) :: after⟩ =
      c.bind tupleId dictId ⟨positional, before ++ after⟩ := by
  unfold Closure.bind
  dsimp only
  rw [fillKeywords_overridden _ v ?_ ?_ before hlater]
  · rw [Filling.names, Slot.map_name_fill,
      Slot.map_name_ofParams (Nat.le_of_eq c.length_fallbacks.symm)]
    exact hname.notPositional
  · rwa [Slot.map_name_ofParams (Nat.le_of_eq hc.keywordDefaults)]

/-! ## Compiled functions -/

/-- Whether each parameter has the value of its own default, if it is declared with one. -/
def OwnDefaults (call : RealmCaller) (r : RealmId) (scope : Scope) (params : List (Param Expr))
    (defaults : List (Option Value)) : Prop :=
  List.Forall₂ (fun p d => ∃ s s', evalOption call r scope p.default s = .ok d s') params defaults

/-- Evaluation gives parameters their own defaults. -/
theorem ownDefaults_of_evalDefaults {call : RealmCaller} {r : RealmId} {scope : Scope}
    {params : List (Param Expr)} {s s' : Store} {defaults : List (Option Value)}
    (h : evalDefaults call r scope params s = .ok defaults s') :
    OwnDefaults call r scope params defaults := by
  induction params generalizing s defaults with
  | nil => cases h; exact .nil
  | cons p params ih =>
    obtain ⟨v, s₁, hv, h⟩ := run_eq_ok h
    obtain ⟨rest, s₂, hrest, h⟩ := run_eq_ok h
    cases h
    exact .cons ⟨s, s₁, hv⟩ (ih hrest)

/-- The value of a lambda keeps the lambda, its defaults evaluated, and the variables around it. -/
theorem function_of_eval {call : RealmCaller} {r : RealmId} {scope : Scope} {params : Params Expr}
    {body : Expr} {s s' : Store} {v : Value}
    (h : eval call r scope (.lambda params body) s = .ok v s') :
    ∃ id defaults keywordDefaults,
      v = .function id ⟨params, body, defaults, keywordDefaults, scope, r⟩ ∧
      OwnDefaults call r scope params.positional defaults ∧
      OwnDefaults call r scope params.keywordOnly keywordDefaults := by
  obtain ⟨⟨defaults, keywordDefaults⟩, s₁, hparams, h⟩ := run_eq_ok h
  obtain ⟨id, s₂, -, h⟩ := run_eq_ok h
  cases h
  obtain ⟨positional, varargs, keywordOnly, kwargs⟩ := params
  obtain ⟨ds, s₃, hdefaults, hparams⟩ := run_eq_ok hparams
  obtain ⟨ks, s₄, hkeywordDefaults, hparams⟩ := run_eq_ok hparams
  cases hparams
  exact ⟨_, _, _, rfl, ownDefaults_of_evalDefaults hdefaults,
    ownDefaults_of_evalDefaults hkeywordDefaults⟩

/-- A lambda evaluates to a closure that is aligned. -/
theorem aligned_of_eval {call : RealmCaller} {r : RealmId} {scope : Scope} {params : Params Expr}
    {body : Expr} {s s' : Store} {v : Value}
    (h : eval call r scope (.lambda params body) s = .ok v s') :
    ∃ id c, v = .function id c ∧ c.Aligned ∧ c.home = r := by
  obtain ⟨id, defaults, keywordDefaults, hv, hdefaults, hkeywordDefaults⟩ := function_of_eval h
  exact ⟨id, _, hv, ⟨hdefaults.length_eq, hkeywordDefaults.length_eq⟩, rfl⟩

/-- What a source is compiled to is the value of a lambda. -/
theorem aligned_of_compile {home : RealmId} {source : String} {s s' : Store} {c : Closure Value}
    (h : compile home source s = .ok c s') : c.Aligned ∧ c.home = home := by
  obtain ⟨e, s₁, -, h⟩ := run_eq_ok h
  dsimp only at h
  cases e with
  | lambda params body =>
    obtain ⟨v, s₂, hv, h⟩ := run_eq_ok h
    have hlift := run_lift (evaluate home (.lambda params body)) s₁
    rw [evaluate_eq] at hlift
    cases hrun : (Expr.lambda params body).run home [] (s₁.atRest home) with
    | error err s₃ =>
      rw [hrun] at hlift
      exact nomatch hlift.symm.trans hv
    | ok w s₃ =>
      rw [hrun] at hlift
      obtain ⟨id, c', rfl, hc⟩ := aligned_of_eval hrun
      cases hlift.symm.trans hv
      cases h
      exact hc
  | _ => cases h

/-! ## The two ways to call -/

/-- Whether two calls come to the same value with the same effects, or both fail with errors of one
kind. -/
inductive Accords : EStateM.Result RuntimeError Store Value →
    EStateM.Result RuntimeError Store Value → Prop
  | ok (v : Value) (s : Store) : Accords (.ok v s) (.ok v s)
  | error {e e' : RuntimeError} {s s' : Store} : e.kind = e'.kind →
    Accords (.error e s) (.error e' s')

theorem Accords.refl (result : EStateM.Result RuntimeError Store Value) :
    Accords result result := by
  cases result with
  | ok v s => exact .ok v s
  | error e s => exact .error rfl

section

variable {r : RealmId} {scope : Scope} {s : Store} {callee : Expr} {id : Identity}
  {c : Closure Value} {es : List Expr} {ks : List (String × Expr)} {args : Arguments}

/-- A call expression is evaluated as a call from outside, unless a keyword is repeated. -/
theorem run_calling (hcallee : callee.Denotes r scope s (.function id c))
    (hvalues : List.Forall₂ (·.Denotes r scope s ·) es args.positional)
    (hkeywords : KeywordsDenote r scope s ks args.keywords) :
    if (args.keywords.map (·.1)).Nodup then (callee.calling es ks).run r scope s = c.call args s
    else ∃ name, (callee.calling es ks).run r scope s =
      .error (.type (.repeatedKeyword name)) s := by
  have hrun : (callee.calling es ks).run r scope s =
      (evalArguments (callValue (s.callsLeft + 1)) r scope []
        (es.map .positional ++ ks.map fun k => .keyword k.1 k.2) >>=
          callValue (s.callsLeft + 1) r (.function id c)) s :=
    run_ok (hcallee _)
  have hpositional := evalArguments_positional (callValue (s.callsLeft + 1)) hvalues []
    (ks.map fun k => .keyword k.1 k.2)
  have hnone : (([] : Keywords).map (·.1)).Nodup := List.nodup_nil
  have hkeyword := evalArguments_keyword (callValue (s.callsLeft + 1)) hkeywords hnone
  rw [List.nil_append] at hkeyword
  split at hkeyword
  · next hnodup =>
    rw [if_pos hnodup, hrun]
    rw [hkeyword] at hpositional
    dsimp only at hpositional
    rw [List.append_nil] at hpositional
    exact run_ok hpositional
  · next hrepeated =>
    obtain ⟨name, hkeyword⟩ := hkeyword
    rw [if_neg hrepeated, hrun]
    rw [hkeyword] at hpositional
    exact ⟨name, run_error hpositional⟩

/-- From outside a call fails by the type of its error if the arguments cannot be bound. -/
theorem call_of_not_overrides (hc : c.Aligned) (hfree : ¬(s.realm c.home).interrupted)
    (hroom : (s.realm c.home).depth < (s.realm c.home).maxDepth) {name : String}
    (hname : args.keywords.Repeats name) (hrefused : ¬c.Overrides name) :
    ∃ e s', c.call args s = .error e s' ∧ e.kind = .typeError := by
  have hbody : ∀ call s, ∃ e s', c.run call args s = .error e s' ∧ e.kind = .typeError := by
    intro call s
    have hbind := admits_closureBind hc s.fresh (s.fresh + 1) args
    have hrun : c.run call args s =
        ((liftM (c.bind s.fresh (s.fresh + 1) args) : Eval Scope) >>= fun frame =>
          eval call c.home (frame ++ c.scope) c.body) { s with fresh := s.fresh + 1 + 1 } := rfl
    cases hbound : c.bind s.fresh (s.fresh + 1) args with
    | ok frame =>
      rw [hbound] at hbind
      exact absurd (hbind name hname) hrefused
    | error e =>
      rw [hbound] at hbind hrun
      exact ⟨e, _, hrun.trans (run_error rfl), hbind⟩
  obtain ⟨e, s', hrun, hkind⟩ := hbody (callValue s.callsLeft) (s.entered c.home)
  refine ⟨e, Eval.left c.home s', ?_, hkind⟩
  have hwithin := Eval.within_eq c.home (c.run (callValue s.callsLeft) args) s
  rw [if_neg hfree, if_neg (by omega), hrun] at hwithin
  exact hwithin

/-- A call with an overridden keyword is the call without it. -/
theorem call_overridden (hc : c.Aligned) (positional : List Value) {name : String} (v : Value)
    (hname : c.Overrides name) (hkeywordOnly : name ∈ c.params.keywordOnly.map (·.name))
    (before : Keywords) {after : Keywords} (hlater : name ∈ after.map (·.1)) :
    c.call ⟨positional, before ++ (name, v) :: after⟩ =
      c.call ⟨positional, before ++ after⟩ := by
  unfold Closure.call Closure.run
  simp only [bind_overridden hc _ _ positional v hname hkeywordOnly before hlater]

/-- The two ways to call a compiled function accord where no keyword is repeated, and also where one
is, unless it may be handed over more than once. A call expression is refused even then, while from
outside a keyword-only parameter has the last value that is given to it. -/
theorem Closure.call_accords {home : RealmId} {source : String} {s₀ s₁ : Store}
    (hc : compile home source s₀ = .ok c s₁) (hfree : ¬(s.realm home).interrupted)
    (hroom : (s.realm home).depth < (s.realm home).maxDepth)
    (hcallee : callee.Denotes r scope s (.function id c))
    (hvalues : List.Forall₂ (·.Denotes r scope s ·) es args.positional)
    (hkeywords : KeywordsDenote r scope s ks args.keywords) :
    ((∀ name, args.keywords.Repeats name → ¬c.Overrides name) →
      Accords (c.call args s) ((callee.calling es ks).run r scope s)) ∧
    ∀ name, args.keywords.Repeats name → c.Overrides name →
      (∃ other, (callee.calling es ks).run r scope s =
        .error (.type (.repeatedKeyword other)) s) ∧
      ∀ before v after, args.keywords = before ++ (name, v) :: after →
        name ∈ c.params.keywordOnly.map (·.name) → name ∈ after.map (·.1) →
        c.call args s = c.call ⟨args.positional, before ++ after⟩ s := by
  obtain ⟨haligned, rfl⟩ := aligned_of_compile hc
  have hrun := run_calling hcallee hvalues hkeywords
  split at hrun
  · next hnodup =>
    refine ⟨fun _ => hrun ▸ .refl _, fun name hname => ?_⟩
    exact absurd hname (Keywords.nodup_iff.1 hnodup name)
  · next hrepeated =>
    constructor
    · intro hrefused
      rw [Keywords.nodup_iff, not_forall_not] at hrepeated
      obtain ⟨name, hname⟩ := hrepeated
      obtain ⟨other, hother⟩ := hrun
      obtain ⟨e, s', hcall, hkind⟩ :=
        call_of_not_overrides haligned hfree hroom hname (hrefused name hname)
      rw [hcall, hother]
      exact .error hkind
    · intro name _ hname
      refine ⟨hrun, fun before v after hsplit hkeywordOnly hlater => ?_⟩
      obtain ⟨positional, keywords⟩ := args
      obtain rfl : keywords = _ := hsplit
      rw [call_overridden haligned positional v hname hkeywordOnly before hlater]

end

/-- The function `lambda *, y: y`. -/
def keywordIdentity : Closure Value :=
  ⟨⟨[], none, [⟨"y", none⟩], none⟩, .var "y", [], [none], [], 0⟩

/-- A lambda with one keyword-only parameter, which it gives back. -/
theorem compile_keywordIdentity (s : Store) : compile 0 "lambda *, y: y" s =
    .ok keywordIdentity { s.atRest 0 with fresh := s.fresh + 1 } := by
  have hparse : parse "lambda *, y: y" =
      .ok (.lambda ⟨[], none, [⟨"y", none⟩], none⟩ (.var "y")) := by
    with_unfolding_all rfl
  unfold compile
  rw [hparse]
  rfl

/-- The function called with `y=2`, where `f` stands for it. -/
theorem Closure.call_accords_keyword :
    let s := (Session.new defaultMaxDepth).store
    let scope : Scope := [("f", .function 0 keywordIdentity)]
    let ks : List (String × Expr) := [("y", .literal (.int 2))]
    let args : Arguments := ⟨[], [("y", .int 2)]⟩
    (∃ s₁, compile 0 "lambda *, y: y" s = .ok keywordIdentity s₁) ∧
      ¬(s.realm 0).interrupted ∧ (s.realm 0).depth < (s.realm 0).maxDepth ∧
      (Expr.var "f").Denotes 0 scope s (.function 0 keywordIdentity) ∧
      KeywordsDenote 0 scope s ks args.keywords ∧
      Accords (keywordIdentity.call args s) (((Expr.var "f").calling [] ks).run 0 scope s) := by
  intro s scope ks args
  have hcallee : (Expr.var "f").Denotes 0 scope s (.function 0 keywordIdentity) := fun _ => rfl
  have hkeywords : KeywordsDenote 0 scope s ks args.keywords := .cons ⟨rfl, fun _ => rfl⟩ .nil
  have hcompiled := compile_keywordIdentity s
  have hfree : ¬(s.realm 0).interrupted := nofun
  have hroom : (s.realm 0).depth < (s.realm 0).maxDepth := by decide
  have hdistinct : (args.keywords.map (·.1)).Nodup := by simp [args]
  refine ⟨⟨_, hcompiled⟩, hfree, hroom, hcallee, hkeywords, ?_⟩
  exact (Closure.call_accords hcompiled hfree hroom hcallee .nil hkeywords).1 fun name hname =>
    absurd hname (Keywords.nodup_iff.1 hdistinct name)

/-- The function called with `y=1` and then `y=2`: from outside its value is 2, and a call
expression is refused. -/
theorem Closure.not_call_accords_repeated :
    let s := (Session.new defaultMaxDepth).store
    let scope : Scope := [("f", .function 0 keywordIdentity)]
    let ks : List (String × Expr) := [("y", .literal (.int 1)), ("y", .literal (.int 2))]
    let args : Arguments := ⟨[], [("y", .int 1), ("y", .int 2)]⟩
    (∃ s₁, compile 0 "lambda *, y: y" s = .ok keywordIdentity s₁) ∧
      (Expr.var "f").Denotes 0 scope s (.function 0 keywordIdentity) ∧
      KeywordsDenote 0 scope s ks args.keywords ∧
      ¬Accords (keywordIdentity.call args s) (((Expr.var "f").calling [] ks).run 0 scope s) := by
  intro s scope ks args
  have hcallee : (Expr.var "f").Denotes 0 scope s (.function 0 keywordIdentity) := fun _ => rfl
  have hkeywords : KeywordsDenote 0 scope s ks args.keywords :=
    .cons ⟨rfl, fun _ => rfl⟩ (.cons ⟨rfl, fun _ => rfl⟩ .nil)
  refine ⟨⟨_, compile_keywordIdentity s⟩, hcallee, hkeywords, fun haccords => ?_⟩
  have hrepeated : ¬(args.keywords.map (·.1)).Nodup := by simp [args]
  have hinside := run_calling hcallee .nil hkeywords
  rw [if_neg hrepeated] at hinside
  obtain ⟨name, hinside⟩ := hinside
  obtain ⟨s', houtside⟩ : ∃ s', keywordIdentity.call args s = .ok (.int 2) s' := ⟨_, rfl⟩
  rw [houtside, hinside] at haccords
  cases haccords

end ExprLang
