import ExprLang.Proofs.Running
import ExprLang.Proofs.Tokens.Identifiers
import ExprLang.Workbench

/-!
# Registered names

A registry that only placeholders were put into (`Workbench.Filled`) holds names of variables:
each is spelt like a name and means nothing else (`Filled.isName`). So no fragment that a combinator
adds, an operator, a bracket, a literal, the start of a call, is ever a registered name
(`Filled.not_registered`).
-/

namespace ExprLang

variable {w w' : Workbench} {name : String}

/-! ## Filling a registry -/

/-- The names in use were all taken by placeholders, since the registry was last empty. -/
inductive Workbench.Filled : Workbench → Prop
  | empty {w : Workbench} : w.registry = Registry.empty → Filled w
  | placeholder {w w' : Workbench} {name : String} {id : DraftId} :
    Filled w → Build.placeholder name w = .ok id w' → Filled w'
  | other {w w' : Workbench} : Filled w → w'.registry = w.registry → Filled w'

/-- A name that is free is registered. -/
theorem Build.register_of_free (hfree : ¬w.registry.contains name = true) :
    Build.register name w = .ok () { w with registry := w.registry.add name } := by
  unfold Build.register
  rw [run_get, if_neg hfree]
  rfl

/-- A placeholder is in conflict, invalid, or made. -/
theorem Build.placeholder_eq (name : String) (w : Workbench) : Build.placeholder name w =
    if w.registry.contains name then .error (.namingConflict name) w
    else if !isIdentifier name || isReservedWord name then .error (.invalidIdentifier name) w
    else .ok w.drafts.size
      { w with registry := w.registry.add name, drafts := w.drafts.push ⟨[name], none⟩ } := by
  unfold Build.placeholder
  rw [run_get]
  split
  · rfl
  · next hfree =>
    split
    · rfl
    · exact run_ok (Build.register_of_free hfree)

/-- A placeholder is a draft of its name, which was free and is in use from then on. -/
theorem Build.placeholder_eq_ok {id : DraftId} (h : Build.placeholder name w = .ok id w') :
    IsName name ∧ w'.registry = w.registry.add name ∧ (w'.draft id).fragments = [name] := by
  rw [Build.placeholder_eq] at h
  split at h
  · simp at h
  · split at h
    · simp at h
    · next husable =>
      obtain ⟨rfl, rfl⟩ := EStateM.Result.ok.inj h
      have hname : isIdentifier name = true ∧ isReservedWord name = false := by
        simpa using husable
      exact ⟨isName_iff.2 hname, rfl, by simp [Workbench.draft]⟩

theorem Registry.contains_add {g : Registry} {other : String} :
    (g.add name).contains other = true ↔ other = name ∨ g.contains other = true := by
  unfold add
  split
  · next h =>
    constructor
    · exact .inr
    · rintro (rfl | hother)
      · exact h
      · exact hother
  · simp [contains]

/-- The names in use are names of variables. -/
theorem Workbench.Filled.isName (h : w.Filled) (hname : w.registry.contains name = true) :
    IsName name := by
  induction h with
  | empty hempty => simp [hempty, Registry.empty, Registry.contains] at hname
  | placeholder _ hstep ih =>
    obtain ⟨hisName, hregistry, -⟩ := Build.placeholder_eq_ok hstep
    rw [hregistry, Registry.contains_add] at hname
    rcases hname with rfl | hname
    · exact hisName
    · exact ih hname
  | other _ hregistry ih =>
    rw [hregistry] at hname
    exact ih hname

/-- What is no name is not registered. -/
theorem Workbench.Filled.not_registered (h : w.Filled) {fragment : String}
    (hfragment : isIdentifier fragment = false ∨ isReservedWord fragment = true) :
    w.registry.contains fragment = false := by
  cases hregistered : w.registry.contains fragment with
  | false => rfl
  | true =>
    have hname := isName_iff.1 (h.isName hregistered)
    rcases hfragment with hfragment | hfragment
    · simp [hfragment] at hname
    · simp [hfragment] at hname

end ExprLang
