import ExprLang.Proofs.Parsing.Exactness

/-!
# Subexpressions

`Expr.children` are the expressions right inside another, `e.All P` says that `P` holds of every
expression inside `e` and of `e` itself. Proofs about all expressions go from the children to
their parent (`Expr.induct_children`), which is larger (`Expr.sizeOf_lt_of_mem_children`).
-/

namespace ExprLang

/-! ## Children -/

/-- The expressions right inside an expression. -/
def Expr.children : Expr → List Expr
  | .literal _ | .var _ => []
  | .tuple items | .list items => items
  | .dict entries => entries.map (·.1) ++ entries.map (·.2)
  | .unary _ operand | .not operand | .attribute operand _ => [operand]
  | .binary _ left right | .bool _ left right | .item left right => [left, right]
  | .compare first links => first :: links.map (·.2)
  | .conditional test yes no => [test, yes, no]
  | .slice target lower upper step => target :: (lower.toList ++ upper.toList ++ step.toList)
  | .call callee args => callee :: args.map Argument.value
  | .lambda params body => params.defaults ++ [body]

theorem sizeOf_entry_lt {α β : Type} [SizeOf α] [SizeOf β] {p : α × β} {ps : List (α × β)}
    (h : p ∈ ps) : sizeOf p.1 < sizeOf ps ∧ sizeOf p.2 < sizeOf ps := by
  have hlt := List.sizeOf_lt_of_mem h
  obtain ⟨a, b⟩ := p
  simp only [Prod.mk.sizeOf_spec] at hlt
  dsimp only
  omega

theorem sizeOf_toList_lt {e : Expr} {o : Option Expr} (h : e ∈ o.toList) : sizeOf e < sizeOf o := by
  obtain rfl : o = some e := by simpa using h
  simp

theorem sizeOf_value_lt {a : Argument Expr} {args : List (Argument Expr)} (h : a ∈ args) :
    sizeOf a.value < sizeOf args := by
  have hlt := List.sizeOf_lt_of_mem h
  cases a <;> simp [Argument.value] at hlt ⊢ <;> omega

theorem sizeOf_defaults_lt {e : Expr} {params : Params Expr} (h : e ∈ params.defaults) :
    sizeOf e < sizeOf params := by
  obtain ⟨positional, varargs, keywordOnly, kwargs⟩ := params
  obtain ⟨p, hp, hd⟩ := List.mem_filterMap.1 h
  have hsize : sizeOf e < sizeOf p := by
    obtain ⟨name, default⟩ := p
    obtain rfl : default = some e := hd
    simp
    omega
  have hparams : sizeOf p < sizeOf positional ∨ sizeOf p < sizeOf keywordOnly :=
    (List.mem_append.1 hp).imp List.sizeOf_lt_of_mem List.sizeOf_lt_of_mem
  simp only [Params.mk.sizeOf_spec]
  omega

/-- What is inside is smaller. -/
theorem Expr.sizeOf_lt_of_mem_children {c e : Expr} (h : c ∈ e.children) :
    sizeOf c < sizeOf e := by
  match e with
  | .literal _ | .var _ => simp [children] at h
  | .tuple items | .list items =>
    have hlt : sizeOf c < sizeOf items := List.sizeOf_lt_of_mem h
    simp only [Expr.tuple.sizeOf_spec, Expr.list.sizeOf_spec]
    omega
  | .dict entries =>
    have hlt : sizeOf c < sizeOf entries := by
      simp only [children, List.mem_append, List.mem_map] at h
      rcases h with ⟨p, hp, rfl⟩ | ⟨p, hp, rfl⟩
      · exact (sizeOf_entry_lt hp).1
      · exact (sizeOf_entry_lt hp).2
    rw [Expr.dict.sizeOf_spec]
    omega
  | .unary _ a | .not a | .attribute a _ =>
    obtain rfl : c = a := by simpa [children] using h
    simp only [Expr.unary.sizeOf_spec, Expr.not.sizeOf_spec, Expr.attribute.sizeOf_spec]
    omega
  | .binary _ l r | .bool _ l r | .item l r =>
    simp only [children, List.mem_cons, List.not_mem_nil, or_false] at h
    simp only [Expr.binary.sizeOf_spec, Expr.bool.sizeOf_spec, Expr.item.sizeOf_spec]
    rcases h with rfl | rfl
    all_goals omega
  | .conditional test yes no =>
    simp only [children, List.mem_cons, List.not_mem_nil, or_false] at h
    rw [Expr.conditional.sizeOf_spec]
    rcases h with rfl | rfl | rfl
    all_goals omega
  | .compare first links =>
    simp only [children, List.mem_cons, List.mem_map] at h
    rw [Expr.compare.sizeOf_spec]
    rcases h with rfl | ⟨p, hp, rfl⟩
    · omega
    · have := (sizeOf_entry_lt hp).2
      omega
  | .slice target lower upper step =>
    simp only [children, List.mem_cons, List.mem_append] at h
    rw [Expr.slice.sizeOf_spec]
    rcases h with rfl | (h | h) | h
    · omega
    all_goals
      have := sizeOf_toList_lt h
      omega
  | .call callee args =>
    simp only [children, List.mem_cons, List.mem_map] at h
    rw [Expr.call.sizeOf_spec]
    rcases h with rfl | ⟨a, ha, rfl⟩
    · omega
    · have := sizeOf_value_lt ha
      omega
  | .lambda params body =>
    simp only [children, List.mem_append, List.mem_singleton] at h
    rw [Expr.lambda.sizeOf_spec]
    rcases h with h | rfl
    · have := sizeOf_defaults_lt h
      omega
    · omega

/-- What holds of an expression if it holds of those right inside it holds of all. -/
theorem Expr.induct_children {motive : Expr → Prop}
    (h : ∀ e, (∀ c ∈ e.children, motive c) → motive e) (e : Expr) : motive e :=
  h e fun c hc =>
    have := sizeOf_lt_of_mem_children hc
    Expr.induct_children h c
termination_by sizeOf e

/-! ## All parts -/

/-- `x` is the expression `e`, or inside it. -/
inductive Expr.Contains : Expr → Expr → Prop
  | refl (e : Expr) : Contains e e
  | inside {e c x : Expr} : c ∈ e.children → Contains c x → Contains e x

/-- `P` holds of every part of an expression. -/
def Expr.All (P : Expr → Prop) (e : Expr) : Prop :=
  ∀ x, e.Contains x → P x

/-- A property of all subexpressions is one of the expression and of all in its children. -/
theorem Expr.all_iff {P : Expr → Prop} {e : Expr} :
    e.All P ↔ P e ∧ ∀ c ∈ e.children, c.All P := by
  constructor
  · exact fun h => ⟨h e (.refl e), fun c hc x hx => h x (.inside hc hx)⟩
  · rintro ⟨he, hchildren⟩ x (_ | ⟨hc, hx⟩)
    · exact he
    · exact hchildren _ hc x hx

theorem Expr.All.of_contains {P : Expr → Prop} {e x : Expr} (h : e.All P) (hx : e.Contains x) :
    x.All P := by
  induction hx with
  | refl e => exact h
  | inside hc _ ih => exact ih ((Expr.all_iff.1 h).2 _ hc)

/-- An expression without children has no others inside. -/
theorem Expr.all_leaf {P : Expr → Prop} {e : Expr} (h : P e) (hnone : e.children = []) :
    e.All P :=
  Expr.all_iff.2 ⟨h, by simp [hnone]⟩

end ExprLang
