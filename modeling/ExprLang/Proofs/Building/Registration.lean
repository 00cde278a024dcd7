import ExprLang.Proofs.Building.Actions

/-!
# Names given out

`Workbench.givesNames` : whatever was done to a workbench, a placeholder is created exactly if its
name is free and may be one, and a marker is one draft until the registry is cleared and another
after that (`Workbench.GivesNames`). The names in use are read off the actions (`Action.inUse`).

What an action does to the registry and to the number of drafts is said in one place
(`Workbench.registers_after`), and the invariants follow case by case: the markers are drafts
exactly while their names are in use (`Workbench.Tracks`), and after the registry was cleared they
are later drafts than all there were (`Workbench.Renewed`). Drafts are never lost, so each has a
number of its own.
-/

namespace ExprLang

open Workbench (Action)

variable {α β : Type} {w w' : Workbench} {name : String} {action : Action} {actions : List Action}

/-! ## Quiet steps -/

/-- A step that leaves the registry as it is and loses no draft. -/
def Build.Quiet (x : Build α) : Prop :=
  ∀ w : Workbench, (benchAfter (x w)).registry = w.registry ∧
    w.drafts.size ≤ (benchAfter (x w)).drafts.size

namespace Build.Quiet

/-- Quiet is what leaves the names and the number of drafts as they were. -/
theorem of_eq {x : Build α} (hregistry : ∀ w, (benchAfter (x w)).registry = w.registry)
    (hdrafts : ∀ w, (benchAfter (x w)).drafts.size = w.drafts.size) : Build.Quiet x :=
  fun w => ⟨hregistry w, Nat.le_of_eq (hdrafts w).symm⟩

theorem pure (a : α) : Build.Quiet (pure a : Build α) :=
  .of_eq (fun _ => rfl) fun _ => rfl

theorem get : Build.Quiet (MonadState.get : Build Workbench) :=
  .of_eq (fun _ => rfl) fun _ => rfl

theorem bind {x : Build α} {f : α → Build β} (hx : Build.Quiet x)
    (hf : ∀ a, Build.Quiet (f a)) : Build.Quiet (x >>= f) :=
  benchAfter_bind (R := fun w w' => w'.registry = w.registry ∧ w.drafts.size ≤ w'.drafts.size)
    (fun _ _ _ h h' => ⟨h'.1.trans h.1, Nat.le_trans h.2 h'.2⟩) hx hf

theorem newDraft (fragments : Fragments) : Build.Quiet (Build.newDraft fragments) := by
  refine fun w => ⟨rfl, ?_⟩
  show w.drafts.size ≤ (w.drafts.push _).size
  simp

theorem combined (parts : List DraftId)
    (combinator : List Fragments → Except BuildError Fragments) :
    Build.Quiet (Workbench.combined parts combinator) := by
  refine .bind .get fun w => ?_
  split
  · exact .newDraft _
  · exact .of_eq (fun _ => rfl) fun _ => rfl

theorem lift (act : Run α) : Build.Quiet (liftM act : Build α) := by
  refine .of_eq (fun w => ?_) fun w => ?_
  · rw [step_lift]
    cases act w.store <;> rfl
  · rw [step_lift, drafts_asStep]

theorem setCompiled (id : DraftId) (function : Callable) :
    Build.Quiet (modify (·.setCompiled id function) : Build PUnit) := by
  refine .of_eq (fun _ => rfl) fun w => ?_
  show (w.drafts.modify id _).size = w.drafts.size
  simp

theorem compile (id : DraftId) : Build.Quiet (Build.compile id) := by
  refine .bind .get fun w => ?_
  split
  · exact .pure _
  · refine .bind .get fun w => ?_
    split
    · exact .pure _
    · exact .bind (.lift (compileAlone (w.source id))) fun _ =>
        .bind (.setCompiled id _) fun _ => .pure _

theorem call (id : DraftId) (args : Arguments) : Build.Quiet (Build.call id args) :=
  .bind (.compile id) fun function => .lift (function.call args)

end Build.Quiet

/-! ## What an action does -/

/-- An action that takes no names into use but those of placeholders and markers. -/
def Workbench.Action.IsGuarded : Action → Prop
  | .register _ | .compileWith .. => False
  | _ => True

/-- The names in use after an action, from those before it. -/
def Workbench.Action.inUse (names : List String) : Action → List String
  | .placeholder name => if isIdentifier name && !isReservedWord name then name :: names else names
  | .marker m => m.name :: names
  | .clear => []
  | _ => names

/-- What an action may do to the registry, and to the number of drafts. -/
inductive Workbench.Registers (w w' : Workbench) : Action → Prop
  | taken {name : String} : w.registry.contains name = false → IsName name →
    w'.registry = w.registry.add name → w'.drafts.size = w.drafts.size + 1 →
    Registers w w' (.placeholder name)
  | refused {name : String} : (IsName name → w.registry.contains name = true) → w' = w →
    Registers w w' (.placeholder name)
  | made {m : Marker} : w.registry.marker? m = none →
    w'.registry = w.registry.setMarker m w.drafts.size → w'.drafts.size = w.drafts.size + 1 →
    Registers w w' (.marker m)
  | shared {m : Marker} {id : DraftId} : w.registry.marker? m = some id → w' = w →
    Registers w w' (.marker m)
  | cleared : w'.registry = Registry.empty → w'.drafts.size = w.drafts.size → Registers w w' .clear
  | other {action : Action} : (∀ names, action.inUse names = names) → w'.registry = w.registry →
    w.drafts.size ≤ w'.drafts.size → Registers w w' action

/-- A marker is made once, and found again after. -/
theorem Build.marker_eq (m : Marker) (w : Workbench) : Build.marker m w =
    match w.registry.marker? m with
    | some id => .ok id w
    | none => .ok w.drafts.size
      { w with drafts := w.drafts.push ⟨[m.name], none⟩
               registry := w.registry.setMarker m w.drafts.size } := by
  unfold Build.marker
  rw [run_get]
  cases w.registry.marker? m <;> rfl

namespace Workbench

/-- What an action gives besides changes nothing. -/
theorem after_eq {x : Build α} {f : α → Result}
    (hperform : action.perform = x >>= fun a => pure (f a)) (w : Workbench) :
    w.after action = benchAfter (x w) := by
  unfold after
  rw [hperform]
  cases hrun : x w with
  | ok a w' => rw [run_ok hrun]; rfl
  | error e w' => rw [run_error hrun]; rfl

/-- What is quiet leaves the names in use as they were. -/
theorem registers_of_quiet {x : Build α} {f : α → Result} (hx : Build.Quiet x)
    (hperform : action.perform = x >>= fun a => pure (f a))
    (hsame : ∀ names, action.inUse names = names) : w.Registers (w.after action) action := by
  have hquiet := hx w
  rw [← after_eq hperform] at hquiet
  exact .other hsame hquiet.1 hquiet.2

/-- What a guarded action does to the registry and to the number of drafts. -/
theorem registers_after (hguarded : action.IsGuarded) (w : Workbench) :
    w.Registers (w.after action) action := by
  cases action with
  | placeholder name =>
    have hafter : w.after (.placeholder name) = benchAfter (Build.placeholder name w) :=
      after_eq rfl w
    rw [Build.placeholder_eq] at hafter
    split at hafter
    · next hregistered => exact .refused (fun _ => hregistered) hafter
    · next hfree =>
      split at hafter
      · next hunusable =>
        refine .refused (fun hname => ?_) hafter
        simp [isName_iff.1 hname] at hunusable
      · next husable =>
        rw [hafter]
        exact .taken (by simpa using hfree) (isName_iff.2 (by simpa using husable)) rfl
          (Array.size_push _)
  | marker m =>
    have hafter : w.after (.marker m) = benchAfter (Build.marker m w) := after_eq rfl w
    rw [Build.marker_eq] at hafter
    cases hmarker : w.registry.marker? m with
    | some id =>
      rw [hmarker] at hafter
      exact .shared hmarker hafter
    | none =>
      rw [hmarker] at hafter
      rw [hafter]
      exact .made hmarker rfl (Array.size_push _)
  | clear => exact .cleared rfl rfl
  | construct fragments => exact registers_of_quiet (.newDraft fragments) rfl fun _ => rfl
  | copy id => exact .other (fun _ => rfl) rfl (Nat.le_refl _)
  | combine parts combinator =>
    exact registers_of_quiet (.combined parts combinator) rfl fun _ => rfl
  | compile id => exact registers_of_quiet (.compile id) rfl fun _ => rfl
  | call id args => exact registers_of_quiet (.call id args) rfl fun _ => rfl
  | compileWith | register => exact hguarded.elim

end Workbench

/-! ## Names and markers in use -/

/-- No placeholder has the name of a marker. -/
theorem Marker.not_isName (m : Marker) : ¬IsName m.name := by
  rw [isName_iff]
  cases m <;> decide

theorem Marker.name_inj {m m' : Marker} (h : m.name = m'.name) : m = m' := by
  cases m <;> cases m' <;> first | rfl | exact absurd h (by decide)

/-- To register a name leaves the markers. -/
theorem Registry.marker?_add (g : Registry) (name : String) (m : Marker) :
    (g.add name).marker? m = g.marker? m := by
  unfold add
  split
  · rfl
  · cases m <;> rfl

/-- To register a marker leaves the others. -/
theorem Registry.marker?_setMarker (g : Registry) (m other : Marker) (id : DraftId) :
    (g.setMarker m id).marker? other = if other = m then some id else g.marker? other := by
  cases m <;> cases other <;> simp [setMarker, marker?]
  · exact g.marker?_add _ .kwargs
  · exact g.marker?_add _ .args

/-- A marker is registered under its name. -/
theorem Registry.contains_setMarker {g : Registry} {m : Marker} {id : DraftId} :
    (g.setMarker m id).contains name = true ↔ name = m.name ∨ g.contains name = true := by
  rw [← contains_add]
  cases m <;> rfl

/-- A placeholder puts its name in use, if it is a name. -/
theorem Workbench.Action.mem_inUse_placeholder {names : List String} {other : String} :
    other ∈ (Action.placeholder name).inUse names ↔ other = name ∧ IsName name ∨ other ∈ names := by
  rw [isName_iff]
  simp only [inUse]
  split
  · next husable =>
    have husable : isIdentifier name = true ∧ isReservedWord name = false := by simpa using husable
    simp [husable]
  · next hunusable =>
    have hunusable : ¬(isIdentifier name = true ∧ isReservedWord name = false) := by
      simpa using hunusable
    simp [hunusable]

/-- Whether these are the names in use on a workbench, its markers are drafts exactly while their
names are in use, and no draft is still to come by the number of a marker. -/
structure Workbench.Tracks (w : Workbench) (names : List String) : Prop where
  contains : ∀ name, w.registry.contains name = true ↔ name ∈ names
  coupled : ∀ m, w.registry.contains m.name = true ↔ (w.registry.marker? m).isSome
  earlier : ∀ m id, w.registry.marker? m = some id → id < w.drafts.size

namespace Workbench

variable {names : List String} {m : Marker} {id : DraftId}

/-- At first no name is in use. -/
theorem tracks_empty (addresses : Addresses) : (empty addresses).Tracks [] :=
  ⟨fun _ => by simp [empty, Registry.empty, Registry.contains],
    fun m => by cases m <;> simp [empty, Registry.empty, Registry.contains, Registry.marker?],
    fun m _ h => by cases m <;> cases h⟩

/-- One step keeps the registry and the names in use together. -/
theorem Tracks.after (hguarded : action.IsGuarded) (h : w.Tracks names) :
    (w.after action).Tracks (action.inUse names) := by
  have hregisters := registers_after hguarded w
  cases hregisters with
  | @taken name _ hname hregistry hsize =>
    refine ⟨fun other => ?_, fun m => ?_, fun m id hid => ?_⟩
    · rw [hregistry, Registry.contains_add, h.contains, Action.mem_inUse_placeholder,
        and_iff_left hname]
    · have hother : m.name ≠ name := fun heq => m.not_isName (heq ▸ hname)
      rw [hregistry, Registry.contains_add, Registry.marker?_add, or_iff_right hother]
      exact h.coupled m
    · rw [hregistry, Registry.marker?_add] at hid
      exact hsize ▸ Nat.lt_succ_of_lt (h.earlier m id hid)
  | @refused name hrefused hsame =>
    rw [hsame]
    refine ⟨fun other => ?_, h.coupled, h.earlier⟩
    have hknown : other = name ∧ IsName name → other ∈ names := by
      rintro ⟨rfl, hname⟩
      exact (h.contains other).1 (hrefused hname)
    rw [h.contains, Action.mem_inUse_placeholder, or_iff_right_of_imp hknown]
  | @made m _ hregistry hsize =>
    refine ⟨fun other => ?_, fun m' => ?_, fun m' id hid => ?_⟩
    · rw [hregistry, Registry.contains_setMarker, h.contains]
      exact List.mem_cons.symm
    · rw [hregistry, Registry.contains_setMarker, Registry.marker?_setMarker]
      split
      · next hm => simp [hm]
      · next hm => rw [or_iff_right fun heq => hm (Marker.name_inj heq), h.coupled]
    · rw [hregistry, Registry.marker?_setMarker] at hid
      split at hid
      · cases hid
        exact hsize ▸ Nat.lt_succ_self _
      · exact hsize ▸ Nat.lt_succ_of_lt (h.earlier m' id hid)
  | @shared m id hmarker hsame =>
    rw [hsame]
    refine ⟨fun other => ?_, h.coupled, h.earlier⟩
    have hknown : other = m.name → other ∈ names := by
      rintro rfl
      exact (h.contains m.name).1 ((h.coupled m).2 (by simp [hmarker]))
    rw [h.contains]
    exact (List.mem_cons.trans (or_iff_right_of_imp hknown)).symm
  | cleared hregistry hsize =>
    have hempty : ∀ m, Registry.empty.marker? m = none := fun m => by cases m <;> rfl
    refine ⟨fun other => ?_, fun m => ?_, fun m id hid => ?_⟩
    · rw [hregistry]
      simp [Registry.empty, Registry.contains, Action.inUse]
    · rw [hregistry, hempty]
      simp [Registry.empty, Registry.contains]
    · rw [hregistry, hempty] at hid
      cases hid
  | other hnone hregistry hsize =>
    rw [hnone]
    refine ⟨fun name => hregistry ▸ h.contains name, fun m => hregistry ▸ h.coupled m,
      fun m id hid => ?_⟩
    rw [hregistry] at hid
    exact Nat.lt_of_lt_of_le (h.earlier m id hid) hsize

/-- Any number of steps keep the registry and the names in use together. -/
theorem Tracks.foldl (hguarded : ∀ a ∈ actions, a.IsGuarded) (h : w.Tracks names) :
    (actions.foldl Workbench.after w).Tracks (actions.foldl Action.inUse names) := by
  induction actions generalizing w names with
  | nil => exact h
  | cons action actions ih =>
    rw [List.forall_mem_cons] at hguarded
    exact ih hguarded.2 (h.after hguarded.1)

/-! ## Until the registry is cleared, and after -/

/-- Only clearing takes a name out of use. -/
theorem contains_after (hguarded : action.IsGuarded) (hkept : action ≠ .clear)
    (h : w.registry.contains name = true) : (w.after action).registry.contains name = true := by
  have hregisters := registers_after hguarded w
  cases hregisters with
  | taken _ _ hregistry =>
    rw [hregistry, Registry.contains_add]
    exact .inr h
  | made _ hregistry =>
    rw [hregistry, Registry.contains_setMarker]
    exact .inr h
  | refused _ hsame | shared _ hsame => rwa [hsame]
  | cleared => exact absurd rfl hkept
  | other _ hregistry => rwa [hregistry]

/-- Only clearing takes a marker away. -/
theorem marker?_after (hguarded : action.IsGuarded) (hkept : action ≠ .clear)
    (h : w.registry.marker? m = some id) : (w.after action).registry.marker? m = some id := by
  have hregisters := registers_after hguarded w
  cases hregisters with
  | taken _ _ hregistry => rwa [hregistry, Registry.marker?_add]
  | @made other hnone hregistry =>
    have hother : m ≠ other := by
      rintro rfl
      exact nomatch h.symm.trans hnone
    rwa [hregistry, Registry.marker?_setMarker, if_neg hother]
  | refused _ hsame | shared _ hsame => rwa [hsame]
  | cleared => exact absurd rfl hkept
  | other _ hregistry => rwa [hregistry]

/-- No step takes a draft away. -/
theorem size_le_after (hguarded : action.IsGuarded) :
    w.drafts.size ≤ (w.after action).drafts.size := by
  have hregisters := registers_after hguarded w
  cases hregisters with
  | taken _ _ _ hsize | made _ _ hsize => exact hsize ▸ Nat.le_succ _
  | refused _ hsame | shared _ hsame => exact Nat.le_of_eq (by rw [hsame])
  | cleared _ hsize => exact Nat.le_of_eq hsize.symm
  | other _ _ hsize => exact hsize

/-- Whether the markers on a workbench are all later drafts than the first few. -/
structure Renewed (n : Nat) (w : Workbench) : Prop where
  size : n ≤ w.drafts.size
  later : ∀ m id, w.registry.marker? m = some id → n ≤ id

/-- Markers made since stay later than what came before. -/
theorem Renewed.after {n : Nat} (hguarded : action.IsGuarded) (h : Renewed n w) :
    Renewed n (w.after action) := by
  refine ⟨Nat.le_trans h.size (size_le_after hguarded), fun m id hid => ?_⟩
  have hregisters := registers_after hguarded w
  cases hregisters with
  | taken _ _ hregistry =>
    rw [hregistry, Registry.marker?_add] at hid
    exact h.later m id hid
  | @made other _ hregistry =>
    rw [hregistry, Registry.marker?_setMarker] at hid
    split at hid
    · exact Option.some.inj hid ▸ h.size
    · exact h.later m id hid
  | refused _ hsame | shared _ hsame =>
    rw [hsame] at hid
    exact h.later m id hid
  | cleared hregistry =>
    rw [hregistry] at hid
    cases m <;> cases hid
  | other _ hregistry =>
    rw [hregistry] at hid
    exact h.later m id hid

theorem Renewed.foldl {n : Nat} (hguarded : ∀ a ∈ actions, a.IsGuarded) (h : Renewed n w) :
    Renewed n (actions.foldl Workbench.after w) :=
  List.foldlRecOn actions Workbench.after h fun _ hw a ha => hw.after (hguarded a ha)

/-- After clearing, every marker is made anew. -/
theorem renewed_of_clear {n : Nat} (hguarded : ∀ a ∈ actions, a.IsGuarded)
    (hclear : .clear ∈ actions) (hn : n ≤ w.drafts.size) :
    Renewed n (actions.foldl after w) := by
  induction actions generalizing w with
  | nil => cases hclear
  | cons action actions ih =>
    rw [List.forall_mem_cons] at hguarded
    cases hclear with
    | head =>
      have hcleared : Renewed n (w.after .clear) :=
        ⟨hn, fun m id hid => by cases m <;> cases hid⟩
      show Renewed n (actions.foldl after (w.after .clear))
      exact hcleared.foldl hguarded.2
    | tail _ hclear => exact ih hguarded.2 hclear (Nat.le_trans hn (size_le_after hguarded.1))

/-! ## Names given out -/

/-- What placeholders and markers come to on a workbench. -/
structure GivesNames (w : Workbench) : Prop where
  /-- A placeholder is created if its name is free and may be one. -/
  created : ∀ name, (∃ id w', Build.placeholder name w = .ok id w') ↔
    ¬w.registry.contains name ∧ isIdentifier name ∧ ¬isReservedWord name
  /-- A name in use is refused as such, whether it may be one or not. -/
  conflict : ∀ name, (∃ w', Build.placeholder name w = .error (.namingConflict name) w') ↔
    w.registry.contains name
  /-- Any other name that is refused is no name, and what is refused changes nothing. -/
  refused : ∀ name e w', Build.placeholder name w = .error e w' →
    w' = w ∧ (e = .namingConflict name ∨ e = .invalidIdentifier name)
  /-- A name is given out once until the registry is cleared. -/
  once : ∀ name id w' (later : List Action), Build.placeholder name w = .ok id w' →
    (∀ a ∈ later, Action.IsGuarded a) → .clear ∉ later →
    Build.placeholder name (later.foldl after w') =
      .error (.namingConflict name) (later.foldl after w')
  /-- The name of a marker is in use exactly while there is a draft of it. -/
  coupled : ∀ m, w.registry.contains m.name ↔ (w.registry.marker? m).isSome
  /-- A marker is one draft until the registry is cleared, and another after that. -/
  marker : ∀ m (later : List Action), (∀ a ∈ later, Action.IsGuarded a) →
    ∃ id w' id' w'', Build.marker m w = .ok id w' ∧
      Build.marker m (later.foldl after w') = .ok id' w'' ∧ (id' = id ↔ .clear ∉ later)

/-- A name in use is refused. -/
theorem conflict_of_contains (h : w.registry.contains name = true) :
    Build.placeholder name w = .error (.namingConflict name) w := by
  rw [Build.placeholder_eq, if_pos h]

/-- When a placeholder is made. -/
theorem exists_placeholder_iff (w : Workbench) (name : String) :
    (∃ id w', Build.placeholder name w = .ok id w') ↔
      ¬w.registry.contains name ∧ isIdentifier name ∧ ¬isReservedWord name := by
  rw [Build.placeholder_eq]
  split
  · next hregistered => simp [hregistered]
  · next hfree =>
    split
    · next hunusable =>
      refine ⟨fun ⟨_, _, h⟩ => (nomatch h), fun ⟨_, hidentifier, hword⟩ => ?_⟩
      simp [hidentifier, hword] at hunusable
    · next husable => exact ⟨fun _ => ⟨hfree, by simpa using husable⟩, fun _ => ⟨_, _, rfl⟩⟩

/-- When a name is in conflict. -/
theorem exists_conflict_iff (w : Workbench) (name : String) :
    (∃ w', Build.placeholder name w = .error (.namingConflict name) w') ↔
      w.registry.contains name := by
  rw [Build.placeholder_eq]
  split
  · next hregistered => simp [hregistered]
  · next hfree => split <;> simp [hfree]

/-- A placeholder that is refused leaves all as it was. -/
theorem refused_placeholder {e : BuildError} (h : Build.placeholder name w = .error e w') :
    w' = w ∧ (e = .namingConflict name ∨ e = .invalidIdentifier name) := by
  rw [Build.placeholder_eq] at h
  split at h
  · cases h
    exact ⟨rfl, .inl rfl⟩
  · split at h
    · cases h
      exact ⟨rfl, .inr rfl⟩
    · cases h

section

variable {later : List Action}

/-- What is true of a workbench until the registry is cleared. -/
theorem kept_foldl {motive : Workbench → Prop}
    (hstep : ∀ (w : Workbench) (a : Action), a.IsGuarded → a ≠ .clear → motive w →
      motive (w.after a))
    (hlater : ∀ a ∈ later, a.IsGuarded) (hkept : .clear ∉ later) (h : motive w) :
    motive (later.foldl after w) :=
  List.foldlRecOn later after h fun w hw a ha =>
    hstep w a (hlater a ha) (fun heq => hkept (heq ▸ ha)) hw

/-- A placeholder cannot be made twice without clearing. -/
theorem conflict_of_placeholder (h : Build.placeholder name w = .ok id w')
    (hlater : ∀ a ∈ later, a.IsGuarded) (hkept : .clear ∉ later) :
    Build.placeholder name (later.foldl after w') =
      .error (.namingConflict name) (later.foldl after w') := by
  have hname : w'.registry.contains name = true := by
    rw [(Build.placeholder_eq_ok h).2.1, Registry.contains_add]
    exact .inl rfl
  exact conflict_of_contains <| kept_foldl (motive := fun w => w.registry.contains name = true)
    (fun _ _ hguarded hkept => contains_after hguarded hkept) hlater hkept hname

/-- What asking for a marker gives: a draft that is then known to be the marker. -/
theorem marker_known (h : w.Tracks names) (m : Marker) :
    ∃ id w', Build.marker m w = .ok id w' ∧ w'.registry.marker? m = some id ∧
      id < w'.drafts.size ∧ ∀ n, Renewed n w → n ≤ id := by
  rw [Build.marker_eq]
  cases hmarker : w.registry.marker? m with
  | some id =>
    exact ⟨id, w, rfl, hmarker, h.earlier m id hmarker, fun n hn => hn.later m id hmarker⟩
  | none =>
    refine ⟨_, _, rfl, ?_, ?_, fun n hn => hn.size⟩
    · rw [Registry.marker?_setMarker, if_pos rfl]
    · simp

/-- A marker is the same until all is cleared. -/
theorem marker_again (h : w.Tracks names) (m : Marker) (hlater : ∀ a ∈ later, a.IsGuarded) :
    ∃ id w' id' w'', Build.marker m w = .ok id w' ∧
      Build.marker m (later.foldl after w') = .ok id' w'' ∧ (id' = id ↔ .clear ∉ later) := by
  obtain ⟨id, w', hmarker, hknown, hid, -⟩ := marker_known h m
  have hw' : w.after (.marker m) = w' := (after_eq rfl w).trans (by rw [hmarker]; rfl)
  have hasked : (Action.marker m).IsGuarded := trivial
  have htracks : w'.Tracks _ := hw' ▸ h.after hasked
  obtain ⟨id', w'', hmarker', -, -, hrenewed⟩ := marker_known (htracks.foldl hlater) m
  refine ⟨id, w', id', w'', hmarker, hmarker', ?_, fun hkept => ?_⟩
  · -- A marker made after the registry was cleared is a later draft than this one.
    rintro rfl hclear
    exact Nat.not_le_of_lt hid (hrenewed _ (renewed_of_clear hlater hclear (Nat.le_refl _)))
  · have hstill : (later.foldl after w').registry.marker? m = some id :=
      kept_foldl (motive := fun w => w.registry.marker? m = some id)
        (fun _ _ hguarded hkept => marker?_after hguarded hkept) hlater hkept hknown
    rw [Build.marker_eq, hstill] at hmarker'
    exact (EStateM.Result.ok.inj hmarker').1.symm

end

/-- Whatever was done to a workbench, the names in use are those taken since the registry was last
cleared, and names are given out as they should be. -/
theorem givesNames (addresses : Addresses) (hguarded : ∀ a ∈ actions, a.IsGuarded) :
    let w := actions.foldl after (Workbench.empty addresses)
    (∀ name, w.registry.contains name ↔ name ∈ actions.foldl Action.inUse []) ∧ w.GivesNames := by
  intro w
  have htracks : w.Tracks (actions.foldl Action.inUse []) := (tracks_empty addresses).foldl hguarded
  exact ⟨htracks.contains, {
    created := exists_placeholder_iff w
    conflict := exists_conflict_iff w
    refused := fun _ _ _ => refused_placeholder
    once := fun _ _ _ _ => conflict_of_placeholder
    coupled := htracks.coupled
    marker := fun m _ => marker_again htracks m }⟩

/-- A name taken, and the marker of further arguments made, twice over. -/
theorem givesNames_again :
    let actions : List Action :=
      [.placeholder "x", .marker .args, .clear, .marker .args, .placeholder "x"]
    let w := actions.foldl after Workbench.empty
    (∀ a ∈ actions, a.IsGuarded) ∧
      (∀ name, w.registry.contains name ↔ name ∈ actions.foldl Action.inUse []) ∧
      w.GivesNames := by
  intro actions w
  have hguarded : ∀ a ∈ actions, a.IsGuarded := by simp [actions, Action.IsGuarded]
  exact ⟨hguarded, givesNames .apart hguarded⟩

end Workbench

end ExprLang
