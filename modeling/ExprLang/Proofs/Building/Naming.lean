import ExprLang.Proofs.Building.Headers
import ExprLang.Proofs.Building.Registration
import Mathlib.Data.List.Basic

/-!
# The parameters of drafts on a workbench

`Workbench.parse_source` : where every name was taken into use by a placeholder or a marker, the
source of a draft is read as a function around what the draft is read as, whose parameters are the
names in the draft. Only a placeholder beside a marker that collects under its name is refused.

The names that are registered on such a workbench are those of variables and of markers, after every
action (`Workbench.registrable_after`), so the lemmas on headers apply.
-/

namespace ExprLang

open ExprLang.Parser
open Workbench (Action)

variable {w w' : Workbench} {id : DraftId} {body : Expr}

/-! ## What is registered -/

/-- Whether the names in use are those of variables and of markers. -/
def Workbench.Registrable (w : Workbench) : Prop :=
  ∀ name, w.registry.contains name = true → IsRegistrable name

/-- Whether names are registrable is told by the registry. -/
theorem Workbench.Registrable.of_registry_eq (h : w.Registrable)
    (heq : w'.registry = w.registry) : w'.Registrable := by
  intro name hname
  rw [heq] at hname
  exact h name hname

theorem Workbench.registrable_of_empty (h : w.registry = Registry.empty) : w.Registrable := by
  intro name hname
  simp [h, Registry.empty, Registry.contains] at hname

theorem Workbench.Registrable.add {name : String} (h : w.Registrable) (hname : IsRegistrable name)
    (hadd : w'.registry.contains = (w.registry.add name).contains) : w'.Registrable := by
  intro other hother
  rw [hadd, Registry.contains_add] at hother
  rcases hother with rfl | hother
  · exact hname
  · exact h other hother

namespace Workbench

/-- Every step registers names and markers alone. -/
theorem registrable_after {action : Action} (hguarded : action.IsGuarded) (h : w.Registrable) :
    (w.after action).Registrable := by
  have hregisters := registers_after hguarded w
  cases hregisters with
  | taken _ hname hregistry => exact h.add (.inl hname) (by rw [hregistry])
  | @made m _ hregistry =>
    refine h.add (.inr ⟨m, rfl⟩) ?_
    rw [hregistry]
    cases m <;> rfl
  | refused _ hsame | shared _ hsame => rwa [hsame]
  | cleared hregistry => exact registrable_of_empty hregistry
  | other _ hregistry => exact h.of_registry_eq hregistry

theorem registrable_foldl {actions : List Action} (hguarded : ∀ a ∈ actions, a.IsGuarded)
    (h : w.Registrable) : (actions.foldl after w).Registrable := by
  induction actions generalizing w with
  | nil => exact h
  | cons action actions ih =>
    rw [List.forall_mem_cons] at hguarded
    exact ih hguarded.2 (registrable_after hguarded.1 h)

/-! ## Sources -/

/-- The source of a draft is read as a function around what the draft is read as, whose parameters
are the names in the draft, or it is nested too deeply. It is refused if a placeholder in the draft
has the name under which a marker in it collects. -/
theorem parse_source {actions : List Action} {addresses : Addresses}
    (hguarded : ∀ a ∈ actions, a.IsGuarded)
    (hw : w = actions.foldl after (Workbench.empty addresses))
    (hbody : parse (w.draft id).fragments.text = .ok body) :
    (¬Clash (w.freeNames id) →
      (∃ ps, parse (w.source id) = .ok (.lambda ps body) ∧ ps.names = w.freeNames id) ∨
        ∃ pos, parse (w.source id) = .error ⟨pos, .tooDeep⟩) ∧
    (Clash (w.freeNames id) →
      ∃ pos, ∃ m : Marker, parse (w.source id) = .error ⟨pos, .duplicateParameter m.word⟩) := by
  have hregistrable : w.Registrable := hw ▸ registrable_foldl hguarded (registrable_of_empty rfl)
  exact ⟨parse_lambdaSource hregistrable hbody, parse_lambdaSource_of_clash hregistrable hbody⟩

/-- A call of a name with everything that a marker collects. -/
theorem derives_spread (name : String) :
    Derives False .primary [.symbol .openParen, .name name, .symbol .closeParen,
      .symbol .openParen, .symbol .star, .name "args", .symbol .closeParen]
      (.call (.var name) [.star (.var "args")]) := by
  have hname : ∀ name, Derives False .expression [.name name] (.var name) := fun _ =>
    .expression_of_primary (.ofAtom .name)
  have hcallee : Derives False .primary
      (.symbol .openParen :: ([.name name] ++ [.symbol .closeParen])) (.var name) :=
    .ofAtom (.brackets (hname name))
  have hargs : ∀ a ∈ [Argument.star (Phrase.mk [.name "args"] (.var "args"))],
      Derives False .expression a.value.tokens a.value.tree := by
    simpa [Argument.value] using hname "args"
  exact Derives.call hcallee hargs (List.pairwise_singleton _ _) (.last _)

theorem parse_spread {source name : String}
    (hsource : sourceTokens source = [.symbol .openParen, .name name, .symbol .closeParen,
      .symbol .openParen, .symbol .star, .name "args", .symbol .closeParen]) :
    parse source = .ok (.call (.var name) [.star (.var "args")]) := by
  refine parse_of_derives_short (by simp [hsource, maxNesting]) ?_
  rw [hsource]
  exact .expression_of_primary (derives_spread name)

/-- A placeholder that is called with everything that a marker collects. -/
def spreading (name : String) : List Action :=
  [.placeholder name, .marker .args,
    .combine [0] fun parts => Build.applied parts.flatten [.text "*args"] []]

theorem parse_source_spreading :
    let w := (spreading "f").foldl after Workbench.empty
    let body := .call (.var "f") [.star (.var "args")]
    (∀ a ∈ spreading "f", a.IsGuarded) ∧ parse (w.draft 2).fragments.text = .ok body ∧
      ¬Clash (w.freeNames 2) ∧
      ∃ ps, parse (w.source 2) = .ok (.lambda ps body) ∧ ps.names = w.freeNames 2 := by
  intro w body
  have hguarded : ∀ a ∈ spreading "f", a.IsGuarded := by simp [spreading, Action.IsGuarded]
  have hbody : parse (w.draft 2).fragments.text = .ok body := parse_spread (by decide +kernel)
  have hclash : ¬Clash (w.freeNames 2) := by
    rintro ⟨m, hword, -⟩
    have hmem := Fragments.mem_freeNames.1 hword
    revert hmem
    cases m <;> decide +kernel
  have hsource : sourceTokens (w.source 2) =
      .keyword .lambdaWord :: ([.name "f", .symbol .comma, .symbol .star, .name "args"] ++
        .symbol .colon :: [.symbol .openParen, .name "f", .symbol .closeParen, .symbol .openParen,
          .symbol .star, .name "args", .symbol .closeParen]) := by
    have htext : w.source 2 = "lambda f,*args:(f)(*args)" := by cbv
    rw [htext]
    decide +kernel
  have hlambda : Derives False .expression (sourceTokens (w.source 2))
      (.lambda ⟨[⟨"f", none⟩], some "args", [], none⟩ body) := by
    rw [hsource]
    refine .ofFunction (@Derives.function _ ⟨[⟨"f", none⟩], some "args", [], none⟩ _ _ _
      (by simp [Params.defaults]) ⟨by decide, by simp⟩ ?_
      (.expression_of_primary (derives_spread "f")))
    exact .comma [.name "f"] (.last [.symbol .star, .name "args"])
  have hparse := parse_of_derives_short (by rw [hsource]; decide) hlambda
  refine ⟨hguarded, hbody, hclash, ((parse_source hguarded rfl hbody).1 hclash).resolve_right ?_⟩
  rintro ⟨pos, hdeep⟩
  cases hparse.symm.trans hdeep

/-- The placeholder has the name that the marker collects under. -/
theorem not_parse_source_spreading :
    let w := (spreading "args").foldl after Workbench.empty
    let body := .call (.var "args") [.star (.var "args")]
    (∀ a ∈ spreading "args", a.IsGuarded) ∧ parse (w.draft 2).fragments.text = .ok body ∧
      ¬((∃ ps, parse (w.source 2) = .ok (.lambda ps body) ∧ ps.names = w.freeNames 2) ∨
        ∃ pos, parse (w.source 2) = .error ⟨pos, .tooDeep⟩) := by
  intro w body
  have hguarded : ∀ a ∈ spreading "args", a.IsGuarded := by simp [spreading, Action.IsGuarded]
  have hbody : parse (w.draft 2).fragments.text = .ok body := parse_spread (by decide +kernel)
  have hclash : Clash (w.freeNames 2) := by
    refine ⟨.args, Fragments.mem_freeNames.2 ?_, Fragments.mem_freeNames.2 ?_⟩
    · decide +kernel
    · decide +kernel
  have hregistrable : w.Registrable := registrable_foldl hguarded (registrable_of_empty rfl)
  obtain ⟨pos, m, herror⟩ := parse_lambdaSource_of_clash hregistrable hbody hclash
  refine ⟨hguarded, hbody, ?_⟩
  rintro (⟨ps, hparse, -⟩ | ⟨pos', hparse⟩)
  · exact absurd (hparse.symm.trans herror) (by simp)
  · exact absurd (hparse.symm.trans herror) (by simp)

end Workbench

end ExprLang
