import ExprLang.Proofs.Parsing.Trailers

/-!
# The parser reads what the grammar derives

The atoms come last: names and literals, displays, and functions, whose parameters are read in the
order that `Params.tokens` gives them.

`Derives.reads` : tokens that derive an expression, with no function standing as a bare atom, are
read by the parser of their level as that expression, in front of any tokens that do not go on
with it, or the parser fails because the expression is nested too deeply; it does not fail so
while there is room for as many levels as there are tokens.
-/

namespace ExprLang

open ExprLang.Parser

variable {ts us rest : List Token} {e : Expr}

/-! ## Names and literals -/

theorem Reads.ofAtom (h : Reads .atom ts e) : Reads .primary ts e := by
  intro room rest hrest
  exact .bind (h.whole hrest)

theorem Reads.name {text : String} : Reads .atom [.name text] (.var text) := by
  intro room rest _
  exact .offset fun pos => .peek? (.skip [_] (.refl _ _))

/-- A number that can be read is its literal. -/
theorem leads_literalAt {α : Type} {deep : Prop} {pos : Nat} {value : Except SyntaxCause α}
    {make : α → Literal} {v : Literal} (h : value.toOption.map make = some v) :
    Leads deep (literalAt pos value make) [] rest (pure (.literal v)) := by
  cases value with
  | error cause => simp [Except.toOption] at h
  | ok a =>
    obtain rfl : make a = v := by simpa [Except.toOption] using h
    exact .refl _ _

/-- A token with a value is a literal. -/
theorem Reads.literal {t : Token} {v : Literal} (h : t.literal? = some v) :
    Reads .atom [t] (.literal v) := by
  intro room rest _
  refine .offset fun pos => .peek? ?_
  unfold Token.literal? at h
  split at h
  case h_1 | h_2 | h_3 =>
    cases h
    exact .skip [_] (.refl _ _)
  case h_4 | h_5 | h_6 => exact .skip [_] (leads_literalAt h)
  case h_7 => simp at h

/-- All string literals that stand together are read. -/
theorem leadingStrings_eq {tokens : List Located} {values : List String}
    (h : tokens.map (·.token) = values.map .str ++ rest) (hrest : continuation rest < 13) :
    leadingStrings tokens = values := by
  induction values generalizing tokens with
  | nil =>
    cases tokens with
    | nil => rfl
    | cons t tokens =>
      obtain rfl : t.token :: tokens.map (·.token) = rest := by simpa using h
      unfold leadingStrings
      split
      · next value heq => simp [heq, continuation] at hrest
      · rfl
  | cons value values ih =>
    obtain ⟨t, tokens, rfl, ht, htokens⟩ := List.map_eq_cons_iff.1 h
    simp [leadingStrings, ht, ih htokens]

theorem Reads.strings {value : String} {values : List String} :
    Reads .atom ((value :: values).map .str)
      (.literal (.str (String.join (value :: values)))) := by
  intro room rest hrest
  refine .offset fun pos => .peek? (.bind fun c hc => .inl ?_)
  simp [Parser.strings, leadingStrings_eq hc hrest, pure_run]

/-! ## Displays -/

/-- Brackets around an expression add nothing. -/
theorem Reads.brackets (h : Reads .expression ts e) (hd : Derives False .expression ts e) :
    Reads .atom (.symbol .openParen :: (ts ++ [.symbol .closeParen])) e := by
  intro room rest _
  refine .offset fun pos => .peek? (.skip_one (.not_eat ?_ ?_))
  · rw [List.append_assoc]
    exact hd.head?_ne (by decide)
  · refine .andThen (h.within .expression (Nat.lt_succ_self 0) ?_) (.eat (.refl _ _))
    simp only [List.length_append, List.length_cons]
    omega

theorem Reads.unit : Reads .atom [.symbol .openParen, .symbol .closeParen] (.tuple []) := by
  intro room rest _
  exact .offset fun pos => .peek? (.skip_one (.eat (.refl _ _)))

theorem Reads.tuple {first : Phrase} {items : List Phrase}
    (hds : ∀ p ∈ first :: items, Derives False .expression p.tokens p.tree)
    (hs : ∀ p ∈ first :: items, Reads .expression p.tokens p.tree)
    (hsep : Separated (items.map Phrase.tokens) ts) :
    Reads .atom
      (.symbol .openParen :: (first.tokens ++ .symbol .comma :: (ts ++ [.symbol .closeParen])))
      (.tuple ((first :: items).map Phrase.tree)) := by
  intro room rest _
  generalize hcount : List.length _ = count
  simp only [List.length_append, List.length_cons] at hcount
  have hitems : Items count (first :: items) := by
    refine ⟨hds, hs, fun p hp => ?_⟩
    rcases List.mem_cons.1 hp with rfl | hp
    · omega
    · have := hsep.length_le _ (List.mem_map_of_mem hp)
      omega
  refine .offset fun pos => .peek? (.skip_one (.not_eat ?_ ?_))
  · rw [List.append_assoc]
    exact (hds first (by simp)).head?_ne (by decide)
  · refine .andThen (hitems.head (Nat.lt_succ_self 0)) (.not_eat (by simp) ?_)
    exact .bind (leads_itemsAfter closeParen_closes hitems.tail hsep)

theorem Reads.list {items : List Phrase}
    (hds : ∀ p ∈ items, Derives False .expression p.tokens p.tree)
    (hs : ∀ p ∈ items, Reads .expression p.tokens p.tree)
    (hsep : Separated (items.map Phrase.tokens) ts) :
    Reads .atom (.symbol .openBracket :: (ts ++ [.symbol .closeBracket]))
      (.list (items.map Phrase.tree)) := by
  intro room rest _
  generalize hcount : List.length _ = count
  simp only [List.length_append, List.length_cons] at hcount
  have hitems : Items count items := by
    refine ⟨hds, hs, fun p hp => ?_⟩
    have := hsep.length_le _ (List.mem_map_of_mem hp)
    omega
  refine .offset fun pos => .peek? (.skip_one ?_)
  cases items with
  | nil =>
    cases hsep
    exact .eat (.refl _ _)
  | cons first items =>
    have hfirst := hds first (by simp)
    generalize hall : (first :: items).map Phrase.tokens = all at hsep
    cases hsep with
    | none => simp at hall
    | last ts =>
      obtain ⟨rfl, rfl⟩ : first.tokens = ts ∧ items = [] := by simpa using hall
      refine .not_eat ?_ (.andThen (hitems.head (Nat.lt_succ_self 0)) (.bind ?_))
      · rw [List.append_assoc]
        exact hfirst.head?_ne (by decide)
      · have hstop : Leads (room < count)
            (iterate (itemStep (nested room) .closeBracket) [first.tree]) []
            ([.symbol .closeBracket] ++ rest) (pure [first.tree]) :=
          .iterate_stop (.not_eat (by simp) (.refl _ _))
        rw [itemsAfter_eq]
        exact hstop.andThen (.expect (.refl _ _))
    | comma ts hsep =>
      obtain ⟨rfl, rfl⟩ := List.cons.inj hall
      rw [List.append_assoc]
      refine .not_eat ?_ (.andThen (hitems.head (Nat.lt_succ_self 0)) (.bind ?_))
      · rw [List.append_assoc]
        exact hfirst.head?_ne (by decide)
      · exact leads_itemsAfter closeBracket_closes hitems.tail hsep

/-- The entries of a dict display, read after those in `done`, and the closing brace. -/
theorem leads_entrySteps {count room : Nat} {ps : List (Phrase × Phrase)}
    (hkeys : Items count (ps.map (·.1))) (hvalues : Items count (ps.map (·.2)))
    (hs : Separated (ps.map entryTokens) ts) (done : List (Expr × Expr)) :
    Leads (room < count) (iterate (entryStep (nested room)) done)
      (ts ++ [.symbol .closeBrace]) rest
      (pure ((ps.map fun p => (p.1.tree, p.2.tree)).reverse ++ done)) := by
  induction ps generalizing ts done with
  | nil =>
    cases hs
    exact .iterate_stop (.eat (.refl _ _))
  | cons p ps ih =>
    have hhead : ∀ us, (entryTokens p ++ us).head? ≠ some (.symbol .closeBrace) := by
      intro us
      rw [entryTokens, List.append_assoc]
      exact (hkeys.derives p.1 (by simp)).head?_ne (by decide)
    generalize hps : (p :: ps).map entryTokens = all at hs
    cases hs with
    | none => simp at hps
    | last ts =>
      obtain ⟨rfl, rfl⟩ : entryTokens p = ts ∧ ps = [] := by simpa using hps
      refine .iterate_stop (.not_eat (by rw [List.append_assoc]; exact hhead _) ?_)
      rw [entryTokens, List.append_assoc]
      refine .andThen (hkeys.head (Nat.lt_succ_self 0)) (.eat ?_)
      refine .andThen (hvalues.head (Nat.lt_succ_self 0)) (.not_eat (by simp) ?_)
      exact .expect (.refl _ _)
    | @comma ts items us hs =>
      obtain ⟨rfl, rfl⟩ := List.cons.inj hps
      have hone : Leads (room < count) (entryStep (nested room) done)
          (entryTokens p ++ [.symbol .comma]) (us ++ [.symbol .closeBrace] ++ rest)
          (pure ((p.1.tree, p.2.tree) :: done, true)) := by
        refine .not_eat (by rw [List.append_assoc]; exact hhead _) ?_
        rw [entryTokens, List.append_assoc]
        refine .andThen (hkeys.head (Nat.lt_succ_self 0)) (.eat ?_)
        exact .andThen (hvalues.head (Nat.lt_succ_self 0)) (.eat (.refl _ _))
      have hrest := ih hkeys.tail hvalues.tail hs ((p.1.tree, p.2.tree) :: done)
      simpa using Leads.trans (.iterate (by simp) hone) hrest

theorem Reads.dict {ps : List (Phrase × Phrase)}
    (hkd : ∀ p ∈ ps, Derives False .expression p.1.tokens p.1.tree)
    (hvd : ∀ p ∈ ps, Derives False .expression p.2.tokens p.2.tree)
    (hk : ∀ p ∈ ps, Reads .expression p.1.tokens p.1.tree)
    (hv : ∀ p ∈ ps, Reads .expression p.2.tokens p.2.tree)
    (hsep : Separated (ps.map entryTokens) ts) :
    Reads .atom (.symbol .openBrace :: (ts ++ [.symbol .closeBrace]))
      (.dict (ps.map fun p => (p.1.tree, p.2.tree))) := by
  intro room rest _
  generalize hcount : List.length _ = count
  simp only [List.length_append, List.length_cons] at hcount
  have hshort : ∀ p ∈ ps, p.1.tokens.length < count ∧ p.2.tokens.length < count := by
    intro p hp
    have := hsep.length_le _ (List.mem_map_of_mem hp)
    simp only [entryTokens, List.length_append, List.length_cons] at this
    omega
  have hkeys : Items count (ps.map (·.1)) := by
    refine ⟨?_, ?_, ?_⟩
    all_goals simp only [List.forall_mem_map]
    · exact hkd
    · exact hk
    · exact fun p hp => (hshort p hp).1
  have hvalues : Items count (ps.map (·.2)) := by
    refine ⟨?_, ?_, ?_⟩
    all_goals simp only [List.forall_mem_map]
    · exact hvd
    · exact hv
    · exact fun p hp => (hshort p hp).2
  refine .offset fun pos => .peek? (.skip_one ?_)
  simp only [map_eq_pure_bind]
  rw [entries_eq]
  refine .trans_nil (.bind (.trans_nil (.bind (leads_entrySteps hkeys hvalues hsep []))
    (.refl _ _))) ?_
  simpa [Level.onward] using Leads.refl _ _

/-! ## Functions -/

/-- The state after a named parameter. -/
def Parser.ParamState.withParam (s : ParamState) (p : Param Expr) : ParamState :=
  if s.starSeen then
    ⟨{ s.params with keywordOnly := s.params.keywordOnly ++ [p] }, s.seen, true⟩
  else ⟨{ s.params with positional := s.params.positional ++ [p] }, s.seen, false⟩

theorem withParam_seen (s : ParamState) (p : Param Expr) : (s.withParam p).seen = s.seen := by
  simp only [ParamState.withParam]
  split <;> rfl

/-- A parameter with a name, and its default if it has one. -/
theorem leads_param {count room : Nat} {s : ParamState} {p : Param Phrase}
    (h : Items count p.default.toList)
    (ho : s.starSeen = false → s.params.positional.getLast?.any (·.default.isSome) = true →
      p.default.isSome = true)
    (hrest : continuation rest < 1) (hassign : rest.head? ≠ some (.symbol .assign)) :
    Leads (room < count) (parameter (nested room) s) p.tokens rest
      (pure (some p.name, s.withParam (p.map Phrase.tree))) := by
  obtain ⟨name, default⟩ := p
  obtain ⟨params, seen, starSeen⟩ := s
  refine .offset fun pos => .not_eat (by simp [Param.tokens]) (.not_eat (by simp [Param.tokens]) ?_)
  refine .expectName ?_
  cases default with
  | none =>
    refine .not_eat (by simpa using hassign) ?_
    simp only [Bool.false_eq_true, ↓reduceIte, pure_bind]
    cases starSeen with
    | true => exact .refl _ _
    | false =>
      have hno : params.positional.getLast?.any (·.default.isSome) = false := by
        simpa using ho rfl
      simp only [Bool.false_eq_true, ↓reduceIte, hno, Bool.false_and]
      exact .refl _ _
  | some d =>
    refine .eat ?_
    simp only [↓reduceIte, map_eq_pure_bind, bind_assoc, pure_bind]
    refine .trans_nil (.bind (h.head hrest)) ?_
    cases starSeen with
    | true => exact .refl _ _
    | false =>
      simp only [Bool.false_eq_true, ↓reduceIte, Option.isNone_some, Bool.and_false]
      exact .refl _ _

/-- The state after named parameters, with their names seen. -/
def Parser.ParamState.declare (s : ParamState) (ps : List (Param Expr)) : ParamState :=
  let seen := (ps.map (·.name)).reverse ++ s.seen
  if s.starSeen then ⟨{ s.params with keywordOnly := s.params.keywordOnly ++ ps }, seen, true⟩
  else ⟨{ s.params with positional := s.params.positional ++ ps }, seen, false⟩

@[simp] theorem declare_nil (s : ParamState) : s.declare [] = s := by
  obtain ⟨params, seen, starSeen⟩ := s
  cases starSeen <;> simp [ParamState.declare]

/-- Parameters are declared one by one. -/
theorem declare_cons (s : ParamState) (p : Param Expr) (ps : List (Param Expr)) :
    s.declare (p :: ps) = (s.declare [p]).declare ps := by
  obtain ⟨params, seen, starSeen⟩ := s
  cases starSeen <;> simp [ParamState.declare]

/-- Parameters with names leave what collects the keywords. -/
theorem declare_kwargs (s : ParamState) (ps : List (Param Expr)) :
    (s.declare ps).params.kwargs = s.params.kwargs := by
  simp only [ParamState.declare]
  split <;> rfl

theorem declare_seen (s : ParamState) (ps : List (Param Expr)) :
    (s.declare ps).seen = (ps.map (·.name)).reverse ++ s.seen := by
  simp only [ParamState.declare]
  split <;> rfl

theorem declare_starSeen (s : ParamState) (ps : List (Param Expr)) :
    (s.declare ps).starSeen = s.starSeen := by
  obtain ⟨params, seen, starSeen⟩ := s
  cases starSeen <;> rfl

/-- The state with one more name seen. -/
def Parser.ParamState.see (s : ParamState) (name : String) : ParamState :=
  { s with seen := name :: s.seen }

theorem declare_singleton (s : ParamState) (p : Param Expr) :
    s.declare [p] = (s.withParam p).see p.name := by
  obtain ⟨params, seen, starSeen⟩ := s
  cases starSeen <;> rfl

/-- A parameter with a name and the comma after it. -/
theorem leads_parameterComma {deep : Prop} {deeper : Nested} {s next : ParamState} {name : String}
    {item : List Token} (hitem : ∀ us, (item ++ us).head? ≠ some (.symbol .colon))
    (hkwargs : s.params.kwargs = none) (hnew : name ∉ next.seen)
    (hone : ∀ us, continuation us < 1 → us.head? ≠ some (.symbol .assign) →
      Leads deep (parameter deeper s) item us (pure (some name, next))) :
    Leads deep (iterate (parameterStep deeper) s) (item ++ [.symbol .comma]) rest
      (iterate (parameterStep deeper) (next.see name)) := by
  have hseen : next.seen.contains name = false := by simpa using hnew
  refine .iterate (by simp) (.not_eat (by rw [List.append_assoc]; exact hitem _) ?_)
  simp only [hkwargs, Option.isSome_none, Bool.false_eq_true, ↓reduceIte]
  refine .offset fun pos => .andThen (hone _ (Nat.lt_succ_self 0) (by simp)) ?_
  simp only [hseen, Bool.false_eq_true, ↓reduceIte]
  exact .eat (.refl _ _)

/-- A parameter with a name, and the parameters after it. -/
theorem leads_parameterStep {deep : Prop} {deeper : Nested} {s next final : ParamState}
    {name : String} {item : List Token} (items : List (List Token))
    (hitem : ∀ us, (item ++ us).head? ≠ some (.symbol .colon))
    (hkwargs : s.params.kwargs = none) (hnew : name ∉ next.seen)
    (hone : ∀ us, continuation us < 1 → us.head? ≠ some (.symbol .assign) →
      Leads deep (parameter deeper s) item us (pure (some name, next)))
    (hlast : items = [] → next.see name = final)
    (hrest : ∀ us, Separated items us → Leads deep (iterate (parameterStep deeper) (next.see name))
      (us ++ [.symbol .colon]) rest (pure final))
    (hs : Separated (item :: items) ts) :
    Leads deep (iterate (parameterStep deeper) s) (ts ++ [.symbol .colon]) rest (pure final) := by
  cases hs with
  | last =>
    have hseen : next.seen.contains name = false := by simpa using hnew
    refine .iterate_stop (.not_eat (by rw [List.append_assoc]; exact hitem _) ?_)
    simp only [hkwargs, Option.isSome_none, Bool.false_eq_true, ↓reduceIte]
    refine .offset fun pos => .andThen (hone _ (Nat.lt_succ_self 0) (by simp)) ?_
    simp only [hseen, Bool.false_eq_true, ↓reduceIte]
    rw [← hlast rfl]
    exact .not_eat (by simp) (.expect (.refl _ _))
  | @comma _ _ us hs =>
    simpa using Leads.trans (leads_parameterComma hitem hkwargs hnew hone) (hrest us hs)

/-- Named parameters, and the parameters after them. -/
theorem leads_params {count room : Nat} {s final : ParamState} {ps : List (Param Phrase)}
    {items : List (List Token)} (h : Items count (ps.filterMap (·.default)))
    (hkwargs : s.params.kwargs = none) (hnames : (s.seen.reverse ++ ps.map (·.name)).Nodup)
    (ho : s.starSeen = false → (s.params.positional ++ ps.map (Param.map Phrase.tree)).Pairwise
      fun p q => p.default.isSome → q.default.isSome)
    (hlast : items = [] → s.declare (ps.map (Param.map Phrase.tree)) = final)
    (hrest : ∀ us, Separated items us → Leads (room < count)
      (iterate (parameterStep (nested room)) (s.declare (ps.map (Param.map Phrase.tree))))
      (us ++ [.symbol .colon]) rest (pure final))
    (hs : Separated (ps.map Param.tokens ++ items) ts) :
    Leads (room < count) (iterate (parameterStep (nested room)) s) (ts ++ [.symbol .colon]) rest
      (pure final) := by
  induction ps generalizing s ts with
  | nil => simpa using hrest ts hs
  | cons p ps ih =>
    have hdefault : Items count p.default.toList :=
      h.mono fun q hq => List.mem_filterMap.2 ⟨p, by simp, by simpa using hq⟩
    have hlater : Items count (ps.filterMap (·.default)) :=
      h.mono fun q hq => by
        obtain ⟨r, hr, hrq⟩ := List.mem_filterMap.1 hq
        exact List.mem_filterMap.2 ⟨r, by simp [hr], hrq⟩
    have hnew : p.name ∉ (s.withParam (p.map Phrase.tree)).seen := by
      rw [withParam_seen]
      intro hmem
      exact (List.nodup_append.1 hnames).2.2 _ (List.mem_reverse.2 hmem) _ (by simp) rfl
    have hnext : (s.withParam (p.map Phrase.tree)).see p.name = s.declare [p.map Phrase.tree] :=
      (declare_singleton s (p.map Phrase.tree)).symm
    refine leads_parameterStep (ps.map Param.tokens ++ items) (by simp [Param.tokens]) hkwargs hnew
      (fun us hus hassign => leads_param hdefault ?_ hus hassign)
      (fun hnil => ?_) (fun us hus => ?_) hs
    · intro hstar hany
      obtain ⟨q, hq, hqd⟩ := (Option.any_eq_true _ _).1 hany
      have hle := (List.pairwise_append.1 (ho hstar)).2.2 q (List.mem_of_getLast? hq)
        (p.map Phrase.tree) (by simp)
      simpa [Param.map] using hle hqd
    · obtain ⟨rfl, hitems⟩ : ps = [] ∧ items = [] := by simpa using hnil
      rw [hnext]
      exact hlast hitems
    · rw [hnext]
      refine ih hlater ?_ ?_ ?_ ?_ ?_ hus
      · rw [declare_kwargs, hkwargs]
      · simpa [declare_seen, Param.map] using hnames
      · intro hstar
        rw [declare_starSeen] at hstar
        simpa [ParamState.declare, hstar] using ho hstar
      · rw [← declare_cons]
        exact hlast
      · rw [← declare_cons]
        exact hrest

/-- The parameter that collects the keywords. -/
theorem leads_doubleStar {deep : Prop} {deeper : Nested} (s : ParamState) (name : String) :
    Leads deep (parameter deeper s) [.symbol .power, .name name] rest
      (pure (some name, ⟨{ s.params with kwargs := some name }, s.seen, s.starSeen⟩)) :=
  .offset fun _ => .eat (.expectName (.refl _ _))

/-- The state after the parameter, if there is one, that collects keyword arguments. -/
def Parser.ParamState.collect (s : ParamState) (kwargs : Option String) : ParamState :=
  match kwargs with
  | some name => ⟨{ s.params with kwargs := some name }, name :: s.seen, s.starSeen⟩
  | none => s

theorem leads_kwargs {deep : Prop} {deeper : Nested} {s : ParamState} {kwargs : Option String}
    (hkwargs : s.params.kwargs = none) (hnew : ∀ name ∈ kwargs, name ∉ s.seen)
    (hs : Separated (kwargs.map fun name => [.symbol .power, .name name]).toList ts) :
    Leads deep (iterate (parameterStep deeper) s) (ts ++ [.symbol .colon]) rest
      (pure (s.collect kwargs)) := by
  have hend : ∀ (s : ParamState) (us : List Token), Separated [] us →
      Leads deep (iterate (parameterStep deeper) s) (us ++ [.symbol .colon]) rest (pure s) := by
    rintro s us ⟨⟩
    exact .iterate_stop (.eat (.refl _ _))
  cases kwargs with
  | none => exact hend s ts hs
  | some name =>
    have hnew' : name ∉ (⟨{ s.params with kwargs := some name }, s.seen, s.starSeen⟩ :
        ParamState).seen := hnew name rfl
    exact leads_parameterStep [] (by simp) hkwargs hnew' (fun us _ _ => leads_doubleStar s name)
      (fun _ => rfl) (hend _) hs

theorem leads_singleStar {deep : Prop} {deeper : Nested} {s : ParamState} (name : String)
    (hstar : s.starSeen = false) :
    Leads deep (parameter deeper s) [.symbol .star, .name name] rest
      (pure (some name, ⟨{ s.params with varargs := some name }, s.seen, true⟩)) := by
  obtain ⟨params, seen, starSeen⟩ := s
  obtain rfl : starSeen = false := hstar
  exact .offset fun _ => .not_eat (by simp) (.eat (.not_eat (by simp) (.expectName (.refl _ _))))

/-- The state after the star among the parameters, if there is one. -/
def Parser.ParamState.star {ε : Type} (s : ParamState) (ps : Params ε) : ParamState :=
  match ps.varargs with
  | some name => ⟨{ s.params with varargs := some name }, name :: s.seen, true⟩
  | none => { s with starSeen := !ps.keywordOnly.isEmpty }

/-- A star, with a name or without, and the parameters behind it. -/
theorem leads_star {deep : Prop} {deeper : Nested} {s final : ParamState} {ps : Params Phrase}
    {items : List (List Token)} (hstar : s.starSeen = false) (hkwargs : s.params.kwargs = none)
    (hnew : ∀ name ∈ ps.varargs, name ∉ s.seen) (hne : ps.keywordOnly ≠ [] → items ≠ [])
    (hlast : items = [] → s.star ps = final)
    (hrest : ∀ us, Separated items us →
      Leads deep (iterate (parameterStep deeper) (s.star ps)) (us ++ [.symbol .colon]) rest
        (pure final))
    (hs : Separated (ps.starTokens ++ items) ts) :
    Leads deep (iterate (parameterStep deeper) s) (ts ++ [.symbol .colon]) rest (pure final) := by
  obtain ⟨params, seen, starSeen⟩ := s
  obtain rfl : starSeen = false := hstar
  obtain ⟨positional, varargs, keywordOnly, kwargs⟩ := ps
  cases varargs with
  | some name =>
    have hnew' : name ∉ (⟨{ params with varargs := some name }, seen, true⟩ : ParamState).seen :=
      hnew name rfl
    exact leads_parameterStep items (by simp) hkwargs hnew'
      (fun us _ _ => leads_singleStar name rfl) hlast hrest hs
  | none =>
    cases keywordOnly with
    | nil => exact hrest ts hs
    | cons p keywordOnly =>
      cases hs with
      | last => exact absurd rfl (hne (List.cons_ne_nil _ _))
      | @comma _ _ us hs =>
        have hstep : Leads deep (parameterStep deeper ⟨params, seen, false⟩)
            [.symbol .star, .symbol .comma] (us ++ [.symbol .colon] ++ rest)
            (pure (⟨params, seen, true⟩, true)) := by
          have hnone : params.kwargs = none := hkwargs
          refine .not_eat (by simp) ?_
          simp only [hnone, Option.isSome_none, Bool.false_eq_true, ↓reduceIte]
          have hone : Leads deep (parameter deeper ⟨params, seen, false⟩)
              [.symbol .star, .symbol .comma] (us ++ [.symbol .colon] ++ rest)
              (pure (none, ⟨params, seen, true⟩)) :=
            .offset fun pos => .not_eat (by simp) (.eat (.eat (.refl _ _)))
          exact .offset fun pos => .bind hone
        simpa using Leads.trans (.iterate (by simp) hstep) (hrest us hs)

theorem star_kwargs {ε : Type} (s : ParamState) (ps : Params ε) :
    (s.star ps).params.kwargs = s.params.kwargs := by
  simp only [ParamState.star]
  split <;> rfl

/-- The name behind a star is seen. -/
theorem star_seen {ε : Type} (s : ParamState) (ps : Params ε) :
    (s.star ps).seen = ps.varargs.toList ++ s.seen := by
  simp only [ParamState.star]
  split <;> simp_all

/-- The state that has seen all parameters. -/
theorem state_of_params (ps : Params Phrase) :
    let initial : ParamState := ⟨⟨[], none, [], none⟩, [], false⟩
    let s := (((initial.declare (ps.positional.map (Param.map Phrase.tree))).star ps).declare
      (ps.keywordOnly.map (Param.map Phrase.tree))).collect ps.kwargs
    s.params = ps.map Phrase.tree
      ∧ (s.starSeen && s.params.varargs.isNone && s.params.keywordOnly.isEmpty) = false := by
  obtain ⟨positional, varargs, keywordOnly, kwargs⟩ := ps
  cases varargs <;> cases keywordOnly <;> cases kwargs <;>
    simp [ParamState.declare, ParamState.star, ParamState.collect, Params.map]

/-- The parameters of a function and the colon after them. -/
theorem leads_parameters {count room : Nat} {ps : Params Phrase} (h : Items count ps.defaults)
    (hvalid : ps.Valid) (hs : Separated ps.tokens ts) :
    Leads (room < count) (parameters (nested room)) (ts ++ [.symbol .colon]) rest
      (pure (ps.map Phrase.tree)) := by
  obtain ⟨hparams, hbare⟩ := state_of_params ps
  obtain ⟨hnames, ho⟩ := hvalid
  obtain ⟨positional, varargs, keywordOnly, kwargs⟩ := ps
  obtain ⟨hthree, -, hkwargs⟩ := List.nodup_append.1 hnames
  obtain ⟨htwo, -, -⟩ := List.nodup_append.1 hthree
  obtain ⟨hone, -, hvarargs⟩ := List.nodup_append.1 htwo
  have hsteps : Leads (room < count)
      (iterate (parameterStep (nested room)) ⟨⟨[], none, [], none⟩, [], false⟩)
      (ts ++ [.symbol .colon]) rest (pure (((ParamState.declare ⟨⟨[], none, [], none⟩, [], false⟩
        (positional.map (Param.map Phrase.tree))).star ⟨positional, varargs, keywordOnly, kwargs⟩
          |>.declare (keywordOnly.map (Param.map Phrase.tree))).collect kwargs)) := by
    simp only [Params.tokens, List.append_assoc] at hs
    refine leads_params (h.mono ?_) rfl (by simpa using hone) (fun _ => ?_) (fun hnil => ?_)
      (fun us hs => ?_) hs
    · simp [Params.defaults]
    · simpa [List.pairwise_map, Param.map] using ho
    · cases varargs <;> cases keywordOnly <;> cases kwargs <;> simp [Params.starTokens] at hnil
      simp [ParamState.star, ParamState.collect, ParamState.declare]
    refine leads_star rfl rfl (fun name hname hmem => ?_) ?_ (fun hnil => ?_) (fun us hs => ?_) hs
    · exact hvarargs name (by simpa [declare_seen, Param.map] using hmem) name
        (by simpa using hname) rfl
    · exact fun hne hnil => hne (by simpa using (List.append_eq_nil_iff.1 hnil).1)
    · cases keywordOnly <;> cases kwargs <;> simp at hnil
      simp [ParamState.collect]
    refine leads_params (h.mono ?_) (by rw [star_kwargs]; rfl) ?_ (fun hstar => ?_) (fun hnil => ?_)
      (fun us hs => ?_) hs
    · simp [Params.defaults]
    · cases varargs <;> simpa [star_seen, declare_seen, Param.map, Function.comp_def] using hthree
    · cases varargs <;> cases keywordOnly <;> simp [ParamState.star] at hstar
      simpa [ParamState.star, ParamState.declare, List.pairwise_map, Param.map] using ho
    · cases kwargs <;> simp at hnil
      rfl
    refine leads_kwargs (by rw [declare_kwargs, star_kwargs]; rfl) (fun name hname hmem => ?_) hs
    refine hkwargs name ?_ name (by simpa using hname) rfl
    simpa [star_seen, declare_seen, Param.map, or_comm, or_assoc, or_left_comm] using hmem
  rw [parameters_eq]
  refine .trans_nil (.bind hsteps) ?_
  rw [hbare, hparams]
  exact .refl _ _

theorem Reads.function {ps : Params Phrase} {bs : List Token} {body : Expr}
    (hds : ∀ p ∈ ps.defaults, Derives False .expression p.tokens p.tree)
    (hs : ∀ p ∈ ps.defaults, Reads .expression p.tokens p.tree) (hvalid : ps.Valid)
    (hsep : Separated ps.tokens ts) (hbody : Reads .expression bs body) :
    Reads .function (.keyword .lambdaWord :: (ts ++ .symbol .colon :: bs))
      (.lambda (ps.map Phrase.tree) body) := by
  intro room rest hrest
  generalize hcount : List.length _ = count
  simp only [List.length_append, List.length_cons] at hcount
  have hdefaults : Items count ps.defaults := by
    refine ⟨hds, hs, fun p hp => ?_⟩
    have := ps.length_default_le hsep hp
    omega
  have hparams : Leads (room < count) (parameters (nested room)) (ts ++ [.symbol .colon])
      (bs ++ rest) (pure (ps.map Phrase.tree)) := leads_parameters hdefaults hvalid hsep
  refine .skip_one ?_
  have hall : ts ++ Token.symbol .colon :: bs = ts ++ [.symbol .colon] ++ bs := by simp
  rw [hall]
  exact .andThen hparams (.bind (hbody.within .expression hrest (by omega)))

/-! ## Everything that is derived -/

/-- Tokens that derive an expression are read as that expression. -/
theorem Derives.reads {level : Level} (h : Derives False level ts e) : Reads level ts e := by
  induction h with
  | ofFunction h ih => exact ih.ofFunction (by cases h; rfl)
  | ofDisjunction h ih => exact ih.ofDisjunction h
  | conditional h _ _ ihy iht ihn => exact ihy.conditional h iht ihn
  | function hds hvalid hs _ ihs ih => exact .function hds ihs hvalid hs ih
  | ofConjunction _ ih => exact ih.ofConjunction
  | or _ _ ihl ihr => exact ihl.or ihr
  | ofNegated _ ih => exact ih.ofNegated
  | and _ _ ihl ihr => exact ihl.and ihr
  | ofComparison h ih => exact ih.ofComparison h
  | not _ ih => exact ih.not
  | ofBinary _ ih => exact ih.ofBinary
  | compare _ hne hds ih ihs => exact ih.compare hne hds ihs
  | tighter hn _ ih => exact ih.tighter hn
  | binary hn hs _ _ ihl ihr => exact ihl.binary hn hs ihr
  | ofSigned _ ih => exact ih.ofSigned
  | ofPower h ih => exact ih.ofPower h
  | sign _ ih => exact ih.sign
  | ofPrimary _ ih => exact ih.ofPrimary
  | power _ _ ihb ihe => exact ihb.power ihe
  | ofAtom _ ih => exact ih.ofAtom
  | dot _ ih => exact ih.dot
  | call _ hds ho hs ih ihs => exact ih.call hds ihs ho hs
  | item _ hd ih ihi => exact ih.item hd ihi
  | itemTuple _ hds hs ih ihs => exact ih.itemTuple hds ihs hs
  | slice _ hdl hdu hds ih ihl ihu ihs => exact ih.slice hdl hdu hds ihl ihu ihs
  | name => exact .name
  | literal h => exact .literal h
  | strings => exact .strings
  | bareFunction h => exact h.elim
  | brackets h ih => exact ih.brackets h
  | unit => exact .unit
  | tuple hds hs ihs => exact .tuple hds ihs hs
  | list hds hs ihs => exact .list hds ihs hs
  | dict hkd hvd hs ihk ihv => exact .dict hkd hvd ihk ihv hs

end ExprLang
