import ExprLang.Proofs.Evaluating.Outside

/-!
# Slots

A call fills the slots of parameters in three rounds: with the values in order (`Slot.fill`), with
those by keyword, and with defaults. Keywords are taken one after the other, but if no two are the
same each is taken or refused for itself, so together they come to one pass over the slots
(`fillKeywords_spec`). What the rounds leave is read off as names with values (`Slot.entries`),
unless some slot is without a value (`Slot.missing_eq_nil_iff`).
-/

namespace ExprLang

/-! ## Conditions -/

/-- Whether a result is a certain value if a condition holds, and a type error otherwise. -/
structure OkIff {α : Type} (p : Prop) (result : Except RuntimeError α) (a : α) : Prop where
  ok : p → result = .ok a
  error : ¬p → ∃ cause, result = .error (.type cause)

section

variable {α β : Type} {p q : Prop} {x y : Except RuntimeError α} {a : α}

/-- What cannot fail succeeds in any case. -/
theorem OkIff.pure (a : α) : OkIff True (.ok a) a :=
  ⟨fun _ => rfl, fun h => absurd trivial h⟩

/-- The condition may be put differently. -/
theorem OkIff.congr (h : OkIff p x a) (hpq : p ↔ q) : OkIff q x a :=
  ⟨fun hq => h.ok (hpq.2 hq), fun hq => h.error (mt hpq.1 hq)⟩

/-- Two steps succeed if both do. -/
theorem OkIff.bind {f : α → Except RuntimeError β} {b : β} (hx : OkIff p x a)
    (hf : OkIff q (f a) b) : OkIff (p ∧ q) (x >>= f) b := by
  by_cases hp : p
  · rw [hx.ok hp]
    exact hf.congr (and_iff_right hp).symm
  · obtain ⟨cause, hcause⟩ := hx.error hp
    rw [hcause]
    exact ⟨fun h => absurd h.1 hp, fun _ => ⟨cause, rfl⟩⟩

/-- A check succeeds if what it guards against is not so. -/
theorem OkIff.ite {c : Prop} [Decidable c] (hc : c ↔ ¬p) (hx : ∃ cause, x = .error (.type cause))
    (hy : OkIff q y a) : OkIff (p ∧ q) (if c then x else y) a := by
  split
  · next h => exact ⟨fun hpq => absurd hpq.1 (hc.1 h), fun _ => hx⟩
  · next h => exact hy.congr (and_iff_right (not_not.1 (mt hc.2 h))).symm

end

/-! ## Keywords given to slots -/

/-- A slot with what keywords give to it. -/
def Slot.withKeywords (keywords : Keywords) (slot : Slot) : Slot :=
  { slot with given := keywords.lookup slot.name <|> slot.given }

/-- The first keyword with the name counts. -/
theorem Keywords.lookup_cons (b : String × Value) (keywords : Keywords) (name : String) :
    List.lookup name (b :: keywords) = if name = b.1 then some b.2 else keywords.lookup name := by
  rw [List.lookup_cons]
  by_cases hname : name = b.1
  · rw [beq_iff_eq.2 hname, if_pos hname]
  · rw [beq_eq_false_iff_ne.2 hname, if_neg hname]

/-- A keyword that is not given is not found. -/
theorem Keywords.lookup_eq_none_iff {keywords : Keywords} {name : String} :
    keywords.lookup name = none ↔ name ∉ keywords.map (·.1) := by
  induction keywords with
  | nil => simp
  | cons b keywords ih =>
    rw [lookup_cons, List.map_cons, List.mem_cons, not_or, ← ih]
    split <;> simp [*]

theorem Keywords.isSome_lookup_iff {keywords : Keywords} {name : String} :
    (keywords.lookup name).isSome ↔ name ∈ keywords.map (·.1) := by
  rw [Option.isSome_iff_ne_none, Ne, Keywords.lookup_eq_none_iff, not_not]

/-- Without a keyword for it a slot stays as it was. -/
theorem Slot.withKeywords_of_notMem {keywords : Keywords} {slot : Slot}
    (h : slot.name ∉ keywords.map (·.1)) : slot.withKeywords keywords = slot := by
  unfold withKeywords
  rw [Keywords.lookup_eq_none_iff.2 h]
  rfl

/-- To give one value is to go through the slots with one keyword. -/
theorem Slot.give_eq (b : String × Value) (slots : List Slot) :
    Slot.give b.1 b.2 slots = slots.map (Slot.withKeywords [b]) := by
  refine List.map_congr_left fun slot _ => ?_
  unfold withKeywords
  rw [Keywords.lookup_cons]
  by_cases hname : slot.name = b.1 <;> simp [hname]

/-- Keywords go to a slot one after the other, if none comes twice. -/
theorem Slot.withKeywords_cons {b : String × Value} {keywords : Keywords}
    (hfresh : b.1 ∉ keywords.map (·.1)) (slot : Slot) :
    (slot.withKeywords [b]).withKeywords keywords = slot.withKeywords (b :: keywords) := by
  unfold withKeywords
  simp only [Keywords.lookup_cons]
  by_cases hname : slot.name = b.1
  · simp [hname, Keywords.lookup_eq_none_iff.2 hfresh]
  · simp [hname]

/-- The keywords that no parameter has the name of. -/
def Filling.surplus (f : Filling) (keywords : Keywords) : Keywords :=
  keywords.filter fun k => k.1 ∉ f.names ∧ k.1 ∉ f.keywordOnly.map (·.name)

/-- A keyword with a slot is not collected. -/
theorem Filling.surplus_of_mem {f : Filling} {b : String × Value}
    (h : b.1 ∈ f.names ∨ b.1 ∈ f.keywordOnly.map (·.name)) : f.surplus [b] = [] := by
  unfold surplus
  rw [List.filter_eq_nil_iff, List.forall_mem_singleton, decide_eq_true_iff]
  tauto

/-- A keyword without a slot is. -/
theorem Filling.surplus_of_notMem {f : Filling} {b : String × Value} (hnames : b.1 ∉ f.names)
    (hkeywordOnly : b.1 ∉ f.keywordOnly.map (·.name)) : f.surplus [b] = [b] := by
  unfold surplus
  rw [List.filter_eq_self, List.forall_mem_singleton, decide_eq_true_iff]
  exact ⟨hnames, hkeywordOnly⟩

/-- The parameters with what keywords give to them. -/
def Filling.withKeywords (f : Filling) (keywords : Keywords) : Filling where
  positional := f.positional.map (Slot.withKeywords keywords)
  keywordOnly := f.keywordOnly.map (Slot.withKeywords keywords)
  collected := f.collected ++ f.surplus keywords

/-- Whether a keyword is accepted. -/
structure Filling.CanTake (collects : Bool) (f : Filling) (name : String) : Prop where
  first : ¬f.Given name
  taken : name ∈ f.names ∨ name ∈ f.keywordOnly.map (·.name) ∨ collects = true

theorem Slot.map_withKeywords_of_notMem {b : String × Value} {slots : List Slot}
    (h : b.1 ∉ slots.map (·.name)) : slots.map (Slot.withKeywords [b]) = slots := by
  refine (List.map_congr_left fun slot hslot => ?_).trans (List.map_id slots)
  refine Slot.withKeywords_of_notMem fun hmem => h ?_
  rw [List.map_singleton, List.mem_singleton] at hmem
  exact hmem ▸ List.mem_map_of_mem hslot

/-- A keyword that is accepted goes to the one slot of its name, or is collected. -/
theorem giveKeyword_spec (collects : Bool) {f : Filling} (b : String × Value)
    (hdisjoint : List.Disjoint f.names (f.keywordOnly.map (·.name))) :
    OkIff (f.CanTake collects b.1) (f.giveKeyword collects b) (f.withKeywords [b]) := by
  have h := receives_giveKeyword collects f b
  generalize f.giveKeyword collects b = result at h
  unfold Filling.withKeywords
  cases h with
  | again hgiven => exact ⟨fun h => absurd hgiven h.first, fun _ => ⟨_, rfl⟩⟩
  | positional hmem hfree =>
    refine ⟨fun _ => ?_, fun h => absurd ⟨hfree, .inl hmem⟩ h⟩
    rw [Slot.give_eq, Slot.map_withKeywords_of_notMem (hdisjoint hmem),
      Filling.surplus_of_mem (.inl hmem), List.append_nil]
  | keywordOnly hnames hmem =>
    refine ⟨fun _ => ?_, fun h => absurd ⟨mt Filling.Given.mem_names hnames, .inr (.inl hmem)⟩ h⟩
    rw [Slot.give_eq, Slot.map_withKeywords_of_notMem hnames,
      Filling.surplus_of_mem (.inr hmem), List.append_nil]
  | collected hnames hother hcollects =>
    refine ⟨fun _ => ?_,
      fun h => absurd ⟨mt Filling.Given.mem_names hnames, .inr (.inr hcollects)⟩ h⟩
    rw [Slot.map_withKeywords_of_notMem hnames, Slot.map_withKeywords_of_notMem hother,
      Filling.surplus_of_notMem hnames hother]
  | unexpected hnames hother hcollects =>
    refine ⟨fun h => ?_, fun _ => ⟨_, rfl⟩⟩
    have htaken := h.taken
    tauto

/-- Keywords leave the names of slots. -/
theorem Slot.map_name_withKeywords (keywords : Keywords) (slots : List Slot) :
    (slots.map (Slot.withKeywords keywords)).map (·.name) = slots.map (·.name) := by
  rw [List.map_map]
  rfl

theorem Filling.withKeywords_nil (f : Filling) : f.withKeywords [] = f := by
  have hid : Slot.withKeywords [] = id :=
    funext fun slot => Slot.withKeywords_of_notMem List.not_mem_nil
  simp [withKeywords, surplus, hid]

/-- Keywords are filled in one after the other, if none comes twice. -/
theorem Filling.withKeywords_cons {b : String × Value} {keywords : Keywords}
    (hfresh : b.1 ∉ keywords.map (·.1)) (f : Filling) :
    (f.withKeywords [b]).withKeywords keywords = f.withKeywords (b :: keywords) := by
  have hsurplus : (f.withKeywords [b]).surplus keywords = f.surplus keywords := by
    unfold surplus names withKeywords
    rw [Slot.map_name_withKeywords, Slot.map_name_withKeywords]
  have happend : f.surplus (b :: keywords) = f.surplus [b] ++ f.surplus keywords :=
    List.filter_append [b] keywords
  rw [withKeywords, hsurplus]
  unfold withKeywords
  simp only [List.map_map, happend, List.append_assoc, Filling.mk.injEq, and_true]
  exact ⟨List.map_congr_left fun slot _ => Slot.withKeywords_cons hfresh slot,
    List.map_congr_left fun slot _ => Slot.withKeywords_cons hfresh slot⟩

/-- A slot is found by its name with keywords as without. -/
theorem Slot.find?_withKeywords (keywords : Keywords) (name : String) (slots : List Slot) :
    (slots.map (Slot.withKeywords keywords)).find? (·.name == name) =
      (slots.find? (·.name == name)).map (Slot.withKeywords keywords) :=
  List.find?_map ..

/-- Another keyword makes no difference to what is given. -/
theorem Filling.given_withKeywords {f : Filling} {b : String × Value} {name : String}
    (hname : name ≠ b.1) : (f.withKeywords [b]).Given name ↔ f.Given name := by
  unfold Given withKeywords
  dsimp only
  rw [Slot.find?_withKeywords]
  cases hfound : f.positional.find? (·.name == name) with
  | none => simp
  | some slot =>
    have hslot : slot.name = name := by simpa using List.find?_some hfound
    have hsame : slot.withKeywords [b] = slot :=
      Slot.withKeywords_of_notMem (by simpa [hslot] using hname)
    rw [Option.map_some, hsame]

/-- Another keyword makes no difference to what can be taken. -/
theorem Filling.canTake_withKeywords {collects : Bool} {f : Filling} {b : String × Value}
    {name : String} (hname : name ≠ b.1) :
    (f.withKeywords [b]).CanTake collects name ↔ f.CanTake collects name := by
  have hgiven := f.given_withKeywords hname
  have hnames : (f.withKeywords [b]).names = f.names := Slot.map_name_withKeywords _ _
  have hkeywordOnly : (f.withKeywords [b]).keywordOnly.map (·.name) = f.keywordOnly.map (·.name) :=
    Slot.map_name_withKeywords _ _
  constructor
  · rintro ⟨hfirst, htaken⟩
    rw [hgiven] at hfirst
    rw [hnames, hkeywordOnly] at htaken
    exact ⟨hfirst, htaken⟩
  · rintro ⟨hfirst, htaken⟩
    rw [← hgiven] at hfirst
    rw [← hnames, ← hkeywordOnly] at htaken
    exact ⟨hfirst, htaken⟩

/-- Keywords are accepted together if each of them is. -/
theorem fillKeywords_spec (collects : Bool) {f : Filling} {keywords : Keywords}
    (hdistinct : (keywords.map (·.1)).Nodup)
    (hdisjoint : List.Disjoint f.names (f.keywordOnly.map (·.name))) :
    OkIff (∀ name ∈ keywords.map (·.1), f.CanTake collects name)
      (keywords.foldlM (Filling.giveKeyword collects) f) (f.withKeywords keywords) := by
  induction keywords generalizing f with
  | nil =>
    rw [Filling.withKeywords_nil]
    exact (OkIff.pure f).congr (iff_of_true trivial fun _ hmem => nomatch hmem)
  | cons b keywords ih =>
    obtain ⟨hfresh, hdistinct⟩ := List.nodup_cons.1 hdistinct
    have hdisjoint' : List.Disjoint (f.withKeywords [b]).names
        ((f.withKeywords [b]).keywordOnly.map (·.name)) := by
      unfold Filling.names Filling.withKeywords
      rwa [Slot.map_name_withKeywords, Slot.map_name_withKeywords]
    have hrest := (ih hdistinct hdisjoint').congr <| forall₂_congr fun name hmem =>
      Filling.canTake_withKeywords (ne_of_mem_of_not_mem hmem hfresh)
    rw [Filling.withKeywords_cons hfresh] at hrest
    rw [List.foldlM_cons, List.map_cons, List.forall_mem_cons]
    exact (giveKeyword_spec collects b hdisjoint).bind hrest

/-! ## Values given in order -/

/-- Values go to slots by place. -/
theorem Slot.getElem?_fill (slots : List Slot) (vs : List Value) (i : Nat) :
    (Slot.fill slots vs)[i]? =
      slots[i]?.map fun slot => { slot with given := vs[i]? <|> slot.given } := by
  induction slots generalizing vs i with
  | nil => rfl
  | cons slot slots ih =>
    cases vs with
    | nil => exact Option.map_id'.symm
    | cons v vs =>
      cases i with
      | zero => rfl
      | succ i => exact ih vs i

/-- Of slots without a value, the first few get one. -/
theorem Slot.given_fill {slots : List Slot} (hslots : ∀ slot ∈ slots, slot.given = none)
    (vs : List Value) (name : String) :
    (∃ slot, (Slot.fill slots vs).find? (·.name == name) = some slot ∧ slot.given.isSome) ↔
      name ∈ (slots.take vs.length).map (·.name) := by
  induction slots generalizing vs with
  | nil => simp [Slot.fill]
  | cons slot slots ih =>
    obtain ⟨hslot, hrest⟩ := List.forall_mem_cons.1 hslots
    cases vs with
    | nil =>
      refine iff_of_false ?_ List.not_mem_nil
      rintro ⟨found, hfound, hgiven⟩
      rw [hslots found (List.mem_of_find?_eq_some hfound)] at hgiven
      exact absurd hgiven (by decide)
    | cons v vs =>
      unfold Slot.fill
      rw [List.find?_cons, List.length_cons, List.take_succ_cons, List.map_cons, List.mem_cons,
        ← ih hrest vs]
      by_cases hname : slot.name = name
      · simp [hname]
      · rw [beq_eq_false_iff_ne.2 hname]
        simp [Ne.symm hname]

/-! ## Slots with values -/

/-- No name is missing if every slot has a value. -/
theorem Slot.missing_eq_nil_iff {slots : List Slot} :
    Slot.missing slots = [] ↔ ∀ slot ∈ slots, slot.value?.isSome := by
  unfold missing
  rw [List.map_eq_nil_iff, List.filter_eq_nil_iff]
  simp only [Option.isNone_iff_eq_none, ← Option.isSome_iff_ne_none]

/-- A binding for every slot, if every slot has a value. -/
theorem Slot.map_fst_entries {slots : List Slot} (h : ∀ slot ∈ slots, slot.value?.isSome) :
    (Slot.entries slots).map (·.1) = slots.map (·.name) := by
  induction slots with
  | nil => rfl
  | cons slot slots ih =>
    obtain ⟨hslot, hrest⟩ := List.forall_mem_cons.1 h
    obtain ⟨v, hv⟩ := Option.isSome_iff_exists.1 hslot
    unfold entries
    rw [List.filterMap_cons, hv]
    exact congrArg (slot.name :: ·) (ih hrest)

/-- A slot is bound to its value. -/
theorem Slot.mem_entries {slots : List Slot} {slot : Slot} {v : Value} (hmem : slot ∈ slots)
    (hv : slot.value? = some v) : (slot.name, v) ∈ Slot.entries slots :=
  List.mem_filterMap.2 ⟨slot, hmem, by rw [hv]; rfl⟩

/-- Among distinct keys what is in a list is found there. -/
theorem lookup_of_mem {α β : Type} [BEq α] [LawfulBEq α] {l : List (α × β)}
    (hdistinct : (l.map (·.1)).Nodup) {a : α} {b : β} (h : (a, b) ∈ l) : l.lookup a = some b := by
  induction l with
  | nil => cases h
  | cons p l ih =>
    obtain ⟨hfresh, hdistinct⟩ := List.nodup_cons.1 hdistinct
    rw [List.lookup_cons]
    rcases List.mem_cons.1 h with rfl | h
    · simp
    · have hne : a ≠ p.1 := ne_of_mem_of_not_mem (List.mem_map_of_mem h) hfresh
      rw [beq_eq_false_iff_ne.2 hne]
      exact ih hdistinct h

end ExprLang
