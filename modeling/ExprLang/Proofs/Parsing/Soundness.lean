import ExprLang.Proofs.Parsing.Grammar
import ExprLang.Proofs.Parsing.Steps

/-!
# What the parser reads is derived

`nested_yields` : whatever the parser reads, the tokens that it took derive the tree that it
returned. Each rule of the parser is followed with `Yields`, on the assumption that what stands one
level deeper is derived (`Sound`); the loops keep, with the tokens taken so far, what these tokens
have made.
-/

namespace ExprLang

open ExprLang.Parser

/-- What is read one level deeper is derived. -/
def Sound (deeper : Nested) : Prop :=
  ∀ entry, Yields anywhere (deeper entry) (Derives True entry.level)

variable {pre : List Token → Prop} {deeper : Nested}

/-- What is nested in brackets or after a keyword. -/
theorem Sound.expression (h : Sound deeper) :
    Yields pre (deeper .expression) (Derives True .expression) :=
  (h .expression).weaken

/-- What is nested in an exponent or after a sign. -/
theorem Sound.signed (h : Sound deeper) : Yields pre (deeper .signed) (Derives True .signed) :=
  (h .signed).weaken

theorem Sound.negated (h : Sound deeper) : Yields pre (deeper .negated) (Derives True .negated) :=
  (h .negated).weaken

/-! ## Operators -/

/-- Operands of one level joined by operators make an expression of another. -/
theorem joined_yields {operand : Parser Expr} {join? : Token → Option (Expr → Expr → Expr)}
    {inner outer : Level} (hoperand : Yields anywhere operand (Derives True inner))
    (hof : ∀ {ts e}, Derives True inner ts e → Derives True outer ts e)
    (hjoin : ∀ {t join ls rs l r}, join? t = some join → Derives True outer ls l →
      Derives True inner rs r → Derives True outer (ls ++ t :: rs) (join l r)) :
    Yields pre (joined operand join?) (Derives True outer) := by
  rw [joined_eq]
  refine .bind hoperand.weaken fun ts e he => ?_
  refine .iterate (I := fun us l => Derives True outer (ts ++ us) l) (by simpa using hof he) ?_
  intro us l hl
  refine .peek? fun t => ?_
  split
  · next join hsome =>
    obtain ⟨t, rfl, ht⟩ := Option.bind_eq_some_iff.1 hsome
    refine .skip [t] (fun vs hvs => ?_) (.bind hoperand fun rs r hr => .pure ?_)
    · exact List.head?_eq_some_iff.1 hvs.2
    · simpa using hjoin ht hl hr
  · exact .pure (by simpa using hl)

theorem conjunction_yields (h : Yields anywhere (negated deeper) (Derives True .negated)) :
    Yields pre (conjunction deeper) (Derives True .conjunction) := by
  refine joined_yields h .ofNegated fun {t join ls rs l r} hjoin hl hr => ?_
  obtain ⟨rfl, rfl⟩ : t = .keyword .andWord ∧ Expr.bool .and = join := by
    simpa [boolJoin?] using hjoin
  exact .and hl hr

theorem disjunction_yields (h : Yields anywhere (negated deeper) (Derives True .negated)) :
    Yields pre (disjunction deeper) (Derives True .disjunction) := by
  refine joined_yields (conjunction_yields h) .ofConjunction
    fun {t join ls rs l r} hjoin hl hr => ?_
  obtain ⟨rfl, rfl⟩ : t = .keyword .orWord ∧ Expr.bool .or = join := by
    simpa [boolJoin?] using hjoin
  exact .or hl hr

/-- The operators that join on a level are those of the level. -/
theorem levelJoin?_eq_some_iff {level : List (Symbol × BinaryOp)} {t : Token}
    {join : Expr → Expr → Expr} (h : levelJoin? level t = some join) :
    ∃ s op, t = .symbol s ∧ (s, op) ∈ level ∧ join = .binary op := by
  unfold levelJoin? at h
  split at h
  · next s =>
    obtain ⟨op, hop, rfl⟩ := Option.map_eq_some_iff.1 h
    refine ⟨s, op, rfl, ?_, rfl⟩
    obtain ⟨ls, rs, rfl, -⟩ := List.lookup_eq_some_iff.1 hop
    simp
  · simp at h

/-- By recursion on the levels that are left, the last of which is that of the signed operands. -/
theorem binary_yields (h : Yields anywhere (signed deeper) (Derives True .signed))
    {levels : List (List (Symbol × BinaryOp))} {n : Nat} (hlevels : binaryLevels.drop n = levels)
    (hn : n ≤ binaryLevels.length) :
    Yields anywhere (Parser.binary deeper levels) (Derives True (.binary n)) := by
  induction levels generalizing n with
  | nil =>
    obtain rfl : n = binaryLevels.length := Nat.le_antisymm hn (List.drop_eq_nil_iff.1 hlevels)
    exact h.mono fun ts e he => .ofSigned he
  | cons level tighter ih =>
    have hlt : n < binaryLevels.length := by
      refine Nat.lt_of_not_le fun hle => ?_
      rw [List.drop_eq_nil_of_le hle] at hlevels
      exact List.cons_ne_nil _ _ hlevels.symm
    rw [List.drop_eq_getElem_cons hlt] at hlevels
    obtain ⟨rfl, htighter⟩ := List.cons.inj hlevels
    refine joined_yields (ih htighter hlt) (.tighter hlt) fun {t join ls rs l r} hjoin hl hr => ?_
    obtain ⟨s, op, rfl, hs, rfl⟩ := levelJoin?_eq_some_iff hjoin
    exact .binary hlt hs hl hr

/-- An exponent is signed, so `**` associates to the right. -/
theorem power_yields (h : Sound deeper)
    (hprimary : Yields anywhere (primary deeper) (Derives True .primary)) :
    Yields pre (power deeper) (Derives True .power) := by
  refine .bind hprimary.weaken fun bs base hbase => .eat ?_ ?_
  · exact .bind h.signed fun es exponent he => .pure (by simpa using .power hbase he)
  · exact .pure (by simpa using .ofPrimary hbase)

/-- A sign is the symbol of its operator. -/
theorem sign?_eq_some {t : Token} {op : UnaryOp} (h : sign? t = some op) :
    t = .symbol op.symbol := by
  unfold sign? at h
  split at h <;> simp_all [UnaryOp.symbol]
  all_goals
    subst h
    rfl

/-- A sign applies to a signed operand. -/
theorem signed_yields (h : Sound deeper)
    (hprimary : Yields anywhere (primary deeper) (Derives True .primary)) :
    Yields pre (signed deeper) (Derives True .signed) := by
  refine .peek? fun t => ?_
  split
  · next op hsome =>
    obtain ⟨t, rfl, ht⟩ := Option.bind_eq_some_iff.1 hsome
    obtain rfl := sign?_eq_some ht
    refine .skip [_] (fun vs hvs => List.head?_eq_some_iff.1 hvs.2) (.bind h.signed ?_)
    exact fun ts e he => .pure (by simpa using .sign he)
  · exact (power_yields h hprimary).mono fun ts e he => .ofPower he

/-! ## Comparisons -/

/-- A comparison is as many tokens wide as it says. -/
theorem link?_width {t t' : Option Token} {link : Comparison} {width : Nat}
    (h : link? t t' = some (link, width)) : width = link.tokens.length := by
  unfold link? at h
  split at h
  case h_11 => simp at h
  all_goals
    cases h
    rfl

/-- The tokens of a comparison that is found are ahead. -/
theorem link?_ahead {ts : List Token} {link : Comparison} {width : Nat}
    (h : link? ts.head? (ts.drop 1).head? = some (link, width)) :
    ∃ rest, ts = link.tokens ++ rest := by
  unfold link? at h
  split at h
  case h_8 hnot hin =>
    obtain ⟨ts, rfl⟩ := List.head?_eq_some_iff.1 hnot
    obtain ⟨ts, rfl⟩ := List.head?_eq_some_iff.1 hin
    cases h
    exact ⟨_, rfl⟩
  case h_9 his hnot =>
    obtain ⟨ts, rfl⟩ := List.head?_eq_some_iff.1 his
    obtain ⟨ts, rfl⟩ := List.head?_eq_some_iff.1 hnot
    cases h
    exact ⟨_, rfl⟩
  case h_11 => simp at h
  all_goals
    obtain ⟨ts, rfl⟩ := List.head?_eq_some_iff.1 ‹ts.head? = some _›
    cases h
    exact ⟨_, rfl⟩

/-- The links that are collected, last one first, are those of the tokens taken so far. -/
def LinksRead (ts : List Token) (links : List (Comparison × Expr)) : Prop :=
  ∃ ls : List (Comparison × Phrase), (∀ l ∈ ls, Derives True (.binary 0) l.2.tokens l.2.tree) ∧
    ts = linkTokens ls ∧ links.reverse = ls.map fun l => (l.1, l.2.tree)

/-- One round of a chain reads one link, or finds none. -/
theorem linkStep_yields {links : List (Comparison × Expr)} {ts : List Token}
    (h : Yields anywhere (Parser.binary deeper binaryLevels) (Derives True (.binary 0)))
    (hlinks : LinksRead ts links) :
    Yields anywhere (linkStep deeper links) fun us r =>
      if r.2 then LinksRead (ts ++ us) r.1 ∧ us ≠ [] else LinksRead (ts ++ us) r.1 := by
  obtain ⟨ls, hls, rfl, hrev⟩ := hlinks
  refine .peek? fun t => .peekSecond? fun t' => ?_
  split
  · next link width hlink =>
    obtain rfl := link?_width hlink
    refine .skip link.tokens (fun us hus => ?_) (.bind h fun rs r hr => .pure ?_)
    · obtain ⟨⟨-, rfl⟩, rfl⟩ := hus
      exact link?_ahead hlink
    · obtain ⟨t, rest, heq, -⟩ := link.tokens_eq_cons
      refine ⟨⟨ls ++ [(link, ⟨rs, r⟩)], ?_, ?_, ?_⟩, by simp [heq]⟩
      · exact List.forall_mem_append.2 ⟨hls, by simpa using hr⟩
      · simp [linkTokens]
      · simp [hrev]
  · exact .pure (by simpa using ⟨ls, hls, rfl, hrev⟩)

/-- A chain with no link is its first operand. -/
theorem comparison_yields
    (h : Yields anywhere (Parser.binary deeper binaryLevels) (Derives True (.binary 0))) :
    Yields pre (comparison deeper) (Derives True .comparison) := by
  rw [comparison_eq]
  refine .bind h.weaken fun ts first hfirst => ?_
  refine .bind (.iterate (I := LinksRead) ⟨[], by simp, rfl, rfl⟩
    fun us links hlinks => linkStep_yields h hlinks) ?_
  rintro us links ⟨ls, hls, rfl, hrev⟩
  split
  · next hnil =>
    obtain rfl : links = [] := by simpa using hnil
    obtain rfl : ls = [] := by simpa using hrev
    exact .pure (by simpa [linkTokens] using .ofBinary hfirst)
  · next hne =>
    refine .pure ?_
    rw [hrev]
    simpa using Derives.compare hfirst (by rintro rfl; simp_all) hls

/-- A negation applies to a negation. -/
theorem negated_yields (h : Sound deeper)
    (hcomparison : Yields anywhere (comparison deeper) (Derives True .comparison)) :
    Yields pre (negated deeper) (Derives True .negated) := by
  refine .eat (.bind h.negated fun ts e he => .pure (by simpa using .not he)) ?_
  exact hcomparison.weaken.mono fun ts e he => .ofComparison he

/-- The test of a conditional is a disjunction, and its last part any expression. -/
theorem conditional_yields (h : Sound deeper)
    (hdisjunction : Yields anywhere (disjunction deeper) (Derives True .disjunction)) :
    Yields pre (conditional deeper) (Derives True .expression) := by
  refine .bind hdisjunction.weaken fun ys yes hyes => .eat ?_ ?_
  · refine .bind hdisjunction fun ts test htest => .eat ?_ .fail_bind
    refine .bind h.expression fun ns no hno => .pure ?_
    simpa using Derives.conditional hyes htest hno
  · exact .pure (by simpa using .ofDisjunction hyes)

/-! ## Lists of expressions -/

/-- Each item with a comma after it. -/
def commaEach (items : List (List Token)) : List Token :=
  items.flatMap (· ++ [.symbol .comma])

theorem commaEach_append (items : List (List Token)) (item : List Token) :
    commaEach (items ++ [item]) = commaEach items ++ (item ++ [.symbol .comma]) := by
  simp [commaEach]

theorem Separated.ofEach (items : List (List Token)) : Separated items (commaEach items) := by
  induction items with
  | nil => exact .none
  | cons item items ih => simpa [commaEach] using ih.comma item

theorem Separated.ofEach_last (items : List (List Token)) (item : List Token) :
    Separated (items ++ [item]) (commaEach items ++ item) := by
  induction items with
  | nil => exact .last item
  | cons first items ih => simpa [commaEach] using ih.comma first

/-- The items that are collected, last one first, after a first one: each was taken after a
comma. -/
def ItemsRead (first : Expr) (ts : List Token) (items : List Expr) : Prop :=
  ∃ ps : List Phrase, (∀ p ∈ ps, Derives True .expression p.tokens p.tree) ∧
    ts ++ [.symbol .comma] = .symbol .comma :: commaEach (ps.map Phrase.tokens) ∧
    items.reverse = first :: ps.map Phrase.tree

/-- What follows a first item: nothing, or a comma and items. -/
def ItemsAfter (close : Symbol) (first : Expr) (ts : List Token) (items : List Expr) : Prop :=
  ts = [.symbol close] ∧ items = [first] ∨
    ∃ (ps : List Phrase) (us : List Token),
      (∀ p ∈ ps, Derives True .expression p.tokens p.tree) ∧
      Separated (ps.map Phrase.tokens) us ∧ ts = .symbol .comma :: (us ++ [.symbol close]) ∧
      items = first :: ps.map Phrase.tree

/-- Items to the closing bracket, the first of which is read already. -/
theorem itemsAfter_yields (h : Sound deeper) (close : Symbol) (first : Expr) :
    Yields pre (itemsAfter deeper close first) (ItemsAfter close first) := by
  rw [itemsAfter_eq]
  refine .bind (M := fun ts items => ItemsAfter close first (ts ++ [.symbol close]) items.reverse)
    (.iterate (I := ItemsRead first) ⟨[], by simp, rfl, rfl⟩ ?_) ?_
  · rintro ts items ⟨ps, hps, hts, hrev⟩
    refine .eat (.peek? fun t => ?_) (.pure ?_)
    · split
      · refine .pure (.inr ⟨ps, _, hps, .ofEach _, ?_, hrev⟩)
        simp [hts]
      · refine .bind h.expression fun us e he => .pure ⟨⟨ps ++ [⟨us, e⟩], ?_, ?_, ?_⟩, by simp⟩
        · exact List.forall_mem_append.2 ⟨hps, by simpa using he⟩
        · have hsplit : ts ++ .symbol .comma :: (us ++ []) = ts ++ [.symbol .comma] ++ us := by
            simp
          rw [hsplit, hts]
          simp [commaEach_append]
        · simp [hrev]
    · rcases List.eq_nil_or_concat ps with rfl | ⟨init, last, rfl⟩
      · exact .inl ⟨by simpa [commaEach] using hts, hrev⟩
      · rw [List.concat_eq_append] at hps hts hrev
        rw [List.map_append, List.map_singleton, commaEach_append, ← List.append_assoc,
          ← List.cons_append] at hts
        refine .inr ⟨init ++ [last], commaEach (init.map Phrase.tokens) ++ last.tokens, hps, ?_, ?_,
          hrev⟩
        · simpa using Separated.ofEach_last (init.map Phrase.tokens) last.tokens
        · simp [List.append_cancel_right hts]
  · exact fun ts items hitems => .expect (.pure (by simpa using hitems))

/-! ## Attributes and subscripts -/

/-- A part of a slice that is left out takes no tokens. -/
theorem slicePart_yields (h : Sound deeper) :
    Yields pre (slicePart deeper) fun ts part =>
      ∃ p : Option Phrase, (∀ q ∈ p, Derives True .expression q.tokens q.tree) ∧
        ts = partTokens p ∧ part = p.map Phrase.tree := by
  refine .peek? fun t => ?_
  split
  · exact .pure ⟨none, by simp, rfl, rfl⟩
  · exact .bind h.expression fun ts e he =>
      .pure ⟨some ⟨ts, e⟩, by simpa using he, by simp [partTokens], rfl⟩

/-- The rest of a slice, whose lower bound is read already. -/
theorem sliceFrom_yields (h : Sound deeper) (target : Expr) (lower : Option Expr) :
    Yields pre (sliceFrom deeper target lower) fun ts e =>
      ∃ (upper : Option Phrase) (step : Option (Option Phrase)),
        (∀ p ∈ upper, Derives True .expression p.tokens p.tree) ∧
        (∀ p ∈ step.join, Derives True .expression p.tokens p.tree) ∧
        ts = .symbol .colon :: (partTokens upper ++ (stepTokens step ++ [.symbol .closeBracket])) ∧
        e = .slice target lower (upper.map Phrase.tree) (step.join.map Phrase.tree) := by
  refine .expect (.bind (slicePart_yields h) ?_)
  rintro us part ⟨upper, hupper, rfl, rfl⟩
  refine .eat (.bind (slicePart_yields h) ?_) ?_
  · rintro ss part ⟨step, hstep, rfl, rfl⟩
    refine .expect (.pure ⟨upper, some step, hupper, by simpa using hstep, ?_, rfl⟩)
    simp [stepTokens]
  · simp only [Bool.false_eq_true, ↓reduceIte, pure_bind]
    refine .expect (.pure ⟨upper, none, hupper, by simp, ?_, rfl⟩)
    simp [stepTokens]

/-- An item or a slice, by whether a colon comes. -/
theorem subscript_yields (h : Sound deeper) {ts : List Token} {target : Expr}
    (htarget : Derives True .primary ts target) :
    Yields pre (subscript deeper target) fun us e =>
      Derives True .primary (ts ++ .symbol .openBracket :: us) e := by
  refine .peek? fun t => ?_
  split
  · refine (sliceFrom_yields h target none).mono ?_
    rintro us e ⟨upper, step, hupper, hstep, rfl, rfl⟩
    have hlower : ∀ p ∈ (none : Option Phrase), Derives True .expression p.tokens p.tree := by
      simp
    exact .slice htarget hlower hupper hstep
  · refine .bind h.expression fun fs first hfirst => .eat (.pure ?_) (.peek? fun t => ?_)
    · simpa using .item htarget hfirst
    · split
      · next hcomma =>
        refine .bind (itemsAfter_yields h .closeBracket first).ahead ?_
        rintro us items ⟨⟨rest, ⟨-, hne⟩, hhead⟩, ⟨rfl, -⟩ | ⟨ps, vs, hps, hsep, rfl, rfl⟩⟩
        · simp at hne
        · refine .pure ?_
          have hall : ∀ p ∈ (⟨fs, first⟩ : Phrase) :: ps,
              Derives True .expression p.tokens p.tree :=
            List.forall_mem_cons.2 ⟨hfirst, hps⟩
          simpa using Derives.itemTuple htarget hall hsep
      · refine (sliceFrom_yields h target (some first)).mono ?_
        rintro us e ⟨upper, step, hupper, hstep, rfl, rfl⟩
        have hlower : ∀ p ∈ some (⟨fs, first⟩ : Phrase),
            Derives True .expression p.tokens p.tree := by simpa using hfirst
        simpa [partTokens] using Derives.slice htarget hlower hupper hstep

/-! ## Calls -/

/-- One more argument keeps the order if all before may precede it. -/
theorem argumentsOrdered_append {args : List (Argument Phrase)} {a : Argument Phrase} :
    ArgumentsOrdered (args ++ [a]) ↔
      ArgumentsOrdered args ∧ ∀ b ∈ args, b.mayPrecede a := by
  simp [ArgumentsOrdered, List.pairwise_append]

/-- The kind of an argument does not depend on its value. -/
theorem isKeyword_map {ε δ : Type} (f : ε → δ) (a : Argument ε) :
    (a.map f).isKeyword = a.isKeyword := by
  cases a <;> rfl

theorem isDoubleStar_map {ε δ : Type} (f : ε → δ) (a : Argument ε) :
    (a.map f).isDoubleStar = a.isDoubleStar := by
  cases a <;> rfl

/-- An argument that may follow those before it, read in the state that they have made. -/
theorem argument_yields (h : Sound deeper) (args : List (Argument Phrase)) :
    Yields pre (argument deeper (argumentState (args.map (Argument.map Phrase.tree)))) fun us s =>
      ∃ a : Argument Phrase, Derives True .expression a.value.tokens a.value.tree ∧
        (∀ b ∈ args, b.mayPrecede a) ∧ us = a.tokens ∧
        s = argumentState ((args ++ [a]).map (Argument.map Phrase.tree)) := by
  refine .eat (.bind h.expression fun us e he => .pure ?_)
    (.eat ?_ (.peek? fun t => .peekSecond? fun t' => ?_))
  · refine ⟨.doubleStar ⟨us, e⟩, he, fun b hb => ?_, by simp [Argument.tokens], ?_⟩
    · cases b <;> trivial
    · simp [argumentState, Argument.map, Argument.isKeyword, Argument.isDoubleStar]
  · simp only [↓reduceIte]
    split
    · exact .fail_bind
    · next hno =>
      refine .bind h.expression fun us e he => .pure ?_
      have hdouble : ∀ b ∈ args, b.isDoubleStar = false := by
        simpa [argumentState, isDoubleStar_map] using hno
      refine ⟨.star ⟨us, e⟩, he, fun b hb => ?_, by simp [Argument.tokens], ?_⟩
      · have := hdouble b hb
        cases b <;> simp_all [Argument.mayPrecede, Argument.isDoubleStar]
      · simp [argumentState, Argument.map, Argument.isKeyword, Argument.isDoubleStar]
  · split
    · next _ _ name =>
      refine .skip [.name name, .symbol .assign] (fun us hus => ?_)
        (.bind h.expression fun us e he => .pure ?_)
      · obtain ⟨⟨-, hhead⟩, hsecond⟩ := hus
        obtain ⟨us, rfl⟩ := List.head?_eq_some_iff.1 hhead
        obtain ⟨us, rfl⟩ := List.head?_eq_some_iff.1 hsecond
        exact ⟨us, rfl⟩
      · refine ⟨.keyword name ⟨us, e⟩, he, fun b hb => ?_, by simp [Argument.tokens], ?_⟩
        · cases b <;> trivial
        · simp [argumentState, Argument.map, Argument.isKeyword, Argument.isDoubleStar]
    · split
      · exact .fail_bind
      · next hno =>
        refine .bind h.expression fun us e he => .pure ?_
        have hnone : ∀ b ∈ args, b.isKeyword = false ∧ b.isDoubleStar = false := by
          simpa [argumentState, isDoubleStar_map, isKeyword_map, forall_and] using hno
        refine ⟨.positional ⟨us, e⟩, he, fun b hb => ?_, by simp [Argument.tokens], ?_⟩
        · have := hnone b hb
          cases b <;> simp_all [Argument.mayPrecede, Argument.isDoubleStar, Argument.isKeyword]
        · simp [argumentState, Argument.map, Argument.isKeyword, Argument.isDoubleStar]

/-- The checks on each argument are that its predecessors may precede it. -/
theorem arguments_yields (h : Sound deeper) :
    Yields pre (arguments deeper) fun us es =>
      ∃ (args : List (Argument Phrase)) (ts : List Token),
        (∀ a ∈ args, Derives True .expression a.value.tokens a.value.tree) ∧
        ArgumentsOrdered args ∧ Separated (args.map Argument.tokens) ts ∧
        us = ts ++ [.symbol .closeParen] ∧ es = args.map (Argument.map Phrase.tree) := by
  rw [arguments_eq]
  refine .bind (M := fun us s => ∃ (args : List (Argument Phrase)) (ts : List Token),
      (∀ a ∈ args, Derives True .expression a.value.tokens a.value.tree) ∧
      ArgumentsOrdered args ∧ Separated (args.map Argument.tokens) ts ∧
      us = ts ++ [.symbol .closeParen] ∧ s = argumentState (args.map (Argument.map Phrase.tree)))
    (.iterate (I := fun us s => ∃ args : List (Argument Phrase),
      (∀ a ∈ args, Derives True .expression a.value.tokens a.value.tree) ∧
      ArgumentsOrdered args ∧ us = commaEach (args.map Argument.tokens) ∧
      s = argumentState (args.map (Argument.map Phrase.tree)))
      ⟨[], by simp, .nil, rfl, rfl⟩ ?_) ?_
  · rintro us s ⟨args, hds, ho, rfl, rfl⟩
    refine .eat (.pure ?_) (.bind (argument_yields h args) ?_)
    · exact ⟨args, _, hds, ho, .ofEach _, by simp, rfl⟩
    · rintro ts s ⟨a, hd, hprecede, rfl, rfl⟩
      have hds' : ∀ b ∈ args ++ [a], Derives True .expression b.value.tokens b.value.tree :=
        List.forall_mem_append.2 ⟨hds, by simpa using hd⟩
      have ho' := argumentsOrdered_append.2 ⟨ho, hprecede⟩
      refine .eat (.pure ⟨⟨args ++ [a], hds', ho', ?_, rfl⟩, by simp⟩) (.expect (.pure ?_))
      · simp [commaEach_append]
      · refine ⟨args ++ [a], commaEach (args.map Argument.tokens) ++ a.tokens, hds', ho', ?_,
          by simp, rfl⟩
        simpa using Separated.ofEach_last (args.map Argument.tokens) a.tokens
  · rintro us s ⟨args, ts, hds, ho, hsep, rfl, rfl⟩
    exact .pure ⟨args, ts, hds, ho, hsep, by simp, by simp [argumentState]⟩

/-! ## Dict displays -/

/-- Entries that are derived. -/
def EntriesDerived (ps : List (Phrase × Phrase)) : Prop :=
  (∀ p ∈ ps, Derives True .expression p.1.tokens p.1.tree) ∧
    ∀ p ∈ ps, Derives True .expression p.2.tokens p.2.tree

theorem EntriesDerived.append {ps : List (Phrase × Phrase)} {k v : Phrase}
    (h : EntriesDerived ps) (hk : Derives True .expression k.tokens k.tree)
    (hv : Derives True .expression v.tokens v.tree) : EntriesDerived (ps ++ [(k, v)]) :=
  ⟨List.forall_mem_append.2 ⟨h.1, by simpa using hk⟩,
    List.forall_mem_append.2 ⟨h.2, by simpa using hv⟩⟩

/-- The entries of a dict display. -/
theorem entries_yields (h : Sound deeper) :
    Yields pre (entries deeper) fun us es =>
      ∃ (ps : List (Phrase × Phrase)) (ts : List Token), EntriesDerived ps ∧
        Separated (ps.map entryTokens) ts ∧ us = ts ++ [.symbol .closeBrace] ∧
        es = ps.map fun p => (p.1.tree, p.2.tree) := by
  rw [entries_eq]
  refine .bind (M := fun us es => ∃ (ps : List (Phrase × Phrase)) (ts : List Token),
      EntriesDerived ps ∧ Separated (ps.map entryTokens) ts ∧ us = ts ++ [.symbol .closeBrace] ∧
      es.reverse = ps.map fun p => (p.1.tree, p.2.tree))
    (.iterate (I := fun us es => ∃ ps : List (Phrase × Phrase), EntriesDerived ps ∧
      us = commaEach (ps.map entryTokens) ∧ es.reverse = ps.map fun p => (p.1.tree, p.2.tree))
      ⟨[], ⟨by simp, by simp⟩, rfl, rfl⟩ ?_) ?_
  · rintro us es ⟨ps, hps, rfl, hrev⟩
    refine .eat (.pure ⟨ps, _, hps, .ofEach _, by simp, hrev⟩) ?_
    refine .bind h.expression fun ks key hkey => .eat ?_ .fail_bind
    refine .bind h.expression fun vs value hvalue => ?_
    have hps' := hps.append (k := ⟨ks, key⟩) (v := ⟨vs, value⟩) hkey hvalue
    have hsep := Separated.ofEach_last (ps.map entryTokens) (entryTokens (⟨ks, key⟩, ⟨vs, value⟩))
    refine .eat (.pure ⟨⟨_, hps', ?_, by simp [hrev]⟩, by simp⟩) (.expect (.pure ?_))
    · simp [commaEach_append, entryTokens]
    · exact ⟨_, _, hps', by simpa using hsep, by simp [entryTokens], by simp [hrev]⟩
  · rintro us es ⟨ps, ts, hps, hsep, rfl, hrev⟩
    exact .pure ⟨ps, ts, hps, hsep, by simp, hrev⟩

/-! ## Functions -/

/-- The star read so far: that of `*name`, or a bare one. -/
def starRead (ps : Params Phrase) (bare : Bool) : List (List Token) :=
  match ps.varargs with
  | some name => [[.symbol .star, .name name]]
  | none => if bare then [[.symbol .star]] else []

/-- The tokens of the parameters read so far, and of a bare star. -/
def paramsRead (ps : Params Phrase) (bare : Bool) : List (List Token) :=
  ps.positional.map Param.tokens ++ starRead ps bare ++ ps.keywordOnly.map Param.tokens
    ++ (ps.kwargs.map fun name => [.symbol .power, .name name]).toList

/-- The state after these parameters and perhaps a bare star. -/
def paramState (ps : Params Phrase) (bare : Bool) : ParamState :=
  ⟨ps.map Phrase.tree, ps.declared.reverse, ps.varargs.isSome || bare⟩

/-- What is kept while parameters are read: their defaults are derived, they may stand together,
and none is for keywords only without a star before it. -/
structure ParamsSound (ps : Params Phrase) (bare : Bool) : Prop where
  derives : ∀ d ∈ ps.defaults, Derives True .expression d.tokens d.tree
  valid : ps.Valid
  alone : bare = true → ps.varargs = none
  starred : ps.varargs = none → bare = false → ps.keywordOnly = []

/-- With a star that is not the last parameter, what was read are the tokens of the parameters. -/
theorem ParamsSound.paramsRead_eq {ps : Params Phrase} {bare : Bool} (h : ParamsSound ps bare)
    (hbare : bare = true → ps.keywordOnly ≠ []) : paramsRead ps bare = ps.tokens := by
  obtain ⟨positional, varargs, keywordOnly, kwargs⟩ := ps
  cases varargs with
  | some name => rfl
  | none =>
    cases bare with
    | true => simp [paramsRead, Params.tokens, starRead, Params.starTokens, hbare rfl]
    | false =>
      obtain rfl : keywordOnly = [] := h.starred rfl rfl
      rfl

/-- A parameter is read where it may come: `ps'` are the parameters with it, `name` its name. -/
structure ParamAdded (ps ps' : Params Phrase) (bare : Bool) (name : String) (us : List Token) :
    Prop where
  derives : ∀ d ∈ ps'.defaults, Derives True .expression d.tokens d.tree
  ordered : ps'.positional.Pairwise fun p q => p.default.isSome → q.default.isSome
  declared : ps'.declared = ps.declared ++ [name]
  tokens : paramsRead ps' bare = paramsRead ps bare ++ [us]
  alone : bare = true → ps'.varargs = none
  starred : ps'.varargs = none → bare = false → ps'.keywordOnly = []

/-- One more parameter keeps the parameters sound, if its name is new. -/
theorem ParamAdded.sound {ps ps' : Params Phrase} {bare : Bool} {name : String} {us : List Token}
    (h : ParamAdded ps ps' bare name us) (hs : ParamsSound ps bare) (hname : name ∉ ps.declared) :
    ParamsSound ps' bare := by
  refine ⟨h.derives, ⟨?_, h.ordered⟩, h.alone, h.starred⟩
  rw [h.declared]
  exact List.nodup_append.2 ⟨hs.valid.distinct, by simp, fun a ha b hb => by
    rintro rfl
    exact hname (by simpa using List.mem_singleton.1 hb ▸ ha)⟩

/-- The defaults of one more parameter. -/
theorem forall_defaults_append {ps : List (Param Phrase)} {p : Param Phrase} {P : Phrase → Prop}
    (h : ∀ d ∈ ps.filterMap (·.default), P d) (hp : ∀ d ∈ p.default, P d) :
    ∀ d ∈ (ps ++ [p]).filterMap (·.default), P d := by
  intro d hd
  obtain ⟨q, hq, hqd⟩ := List.mem_filterMap.1 hd
  rcases List.mem_append.1 hq with hq | hq
  · exact h d (List.mem_filterMap.2 ⟨q, hq, hqd⟩)
  · obtain rfl := List.mem_singleton.1 hq
    exact hp d hqd

/-- A required parameter comes only where the one before it is required, too. -/
theorem pairwise_default_append {ps : List (Param Phrase)} {p : Param Phrase}
    (h : ps.Pairwise fun p q => p.default.isSome → q.default.isSome)
    (hp : ps.getLast?.any (·.default.isSome) = true → p.default.isSome) :
    (ps ++ [p]).Pairwise fun p q => p.default.isSome → q.default.isSome := by
  refine List.pairwise_append.2 ⟨h, List.pairwise_singleton _ _, fun q hq p' hp' hqd => ?_⟩
  obtain rfl := List.mem_singleton.1 hp'
  rcases List.eq_nil_or_concat ps with rfl | ⟨init, last, rfl⟩
  · simp at hq
  · rw [List.concat_eq_append] at h hp hq
    have hlast : last.default.isSome := by
      rcases List.mem_append.1 hq with hq | hq
      · exact (List.pairwise_append.1 h).2.2 q hq last (by simp) hqd
      · rwa [← List.mem_singleton.1 hq]
    exact hp (by simpa using hlast)

/-- What is left to do with a named parameter, once it is read. -/
def paramNext (s : ParamState) (pos : Nat) (p : Param Expr) : Parser (Option String × ParamState) :=
  if s.starSeen then
    pure (some p.name,
      { s with params := { s.params with keywordOnly := s.params.keywordOnly ++ [p] } })
  else do
    let afterDefault := (s.params.positional.getLast?).any (·.default.isSome)
    if afterDefault && p.default.isNone then failAt pos .requiredAfterDefault
    pure (some p.name,
      { s with params := { s.params with positional := s.params.positional ++ [p] } })

/-- The checks on a parameter with a name, and where it goes. -/
theorem paramNext_yields {ps : Params Phrase} {bare : Bool} (hs : ParamsSound ps bare)
    (hkwargs : ps.kwargs = none) {p : Param Phrase}
    (hp : ∀ d ∈ p.default, Derives True .expression d.tokens d.tree) (pos : Nat) :
    Yields pre (paramNext (paramState ps bare) pos (p.map Phrase.tree)) fun us r =>
      us = [] ∧ ∃ ps', ParamAdded ps ps' bare p.name p.tokens ∧
        r = (some p.name,
          ⟨ps'.map Phrase.tree, ps.declared.reverse, ps'.varargs.isSome || bare⟩) := by
  obtain ⟨positional, varargs, keywordOnly, kwargs⟩ := ps
  obtain rfl : kwargs = none := hkwargs
  unfold paramNext
  split
  · next hstar =>
    have hstar : (varargs.isSome || bare) = true := hstar
    refine .pure ⟨rfl, ⟨positional, varargs, keywordOnly ++ [p], none⟩,
      ⟨?_, hs.valid.ordered, ?_, ?_, hs.alone, ?_⟩, ?_⟩
    · rw [Params.defaults, ← List.append_assoc]
      exact forall_defaults_append hs.derives hp
    · simp [Params.declared]
    · simp [paramsRead, starRead]
    · rintro rfl rfl
      simp at hstar
    · simp [paramState, Params.map, Param.map]
  · next hstar =>
    obtain ⟨rfl, rfl⟩ : varargs = none ∧ bare = false := by simpa [paramState] using hstar
    obtain rfl : keywordOnly = [] := hs.starred rfl rfl
    dsimp only
    split
    · exact .failAt_bind
    · next hdefault =>
      refine .pure ⟨rfl, ⟨positional ++ [p], none, [], none⟩,
        ⟨?_, pairwise_default_append hs.valid.ordered ?_, ?_, ?_, by simp, by simp⟩, ?_⟩
      · rw [Params.defaults, List.append_nil]
        exact forall_defaults_append (by simpa [Params.defaults] using hs.derives) hp
      · intro hlast
        obtain ⟨last, hlast, hlastd⟩ := (Option.any_eq_true _ _).1 hlast
        cases hnone : p.default with
        | some d => rfl
        | none =>
          exact absurd (by simp [paramState, Params.map, Param.map, hlast, hlastd, hnone]) hdefault
      · simp [Params.declared]
      · simp [paramsRead, starRead]
      · simp [paramState, Params.map, Param.map]

/-- One parameter, of any kind, or the end of the parameters. -/
theorem parameter_yields (h : Sound deeper) {ps : Params Phrase} {bare : Bool}
    (hs : ParamsSound ps bare) (hkwargs : ps.kwargs = none) :
    Yields pre (parameter deeper (paramState ps bare)) fun us r =>
      match r with
      | (some name, s) => ∃ ps', ParamAdded ps ps' bare name us ∧
        s = ⟨ps'.map Phrase.tree, ps.declared.reverse, ps'.varargs.isSome || bare⟩
      | (none, s) => us = [.symbol .star, .symbol .comma] ∧ s = paramState ps true ∧
        ParamsSound ps true ∧ paramsRead ps true = paramsRead ps bare ++ [[.symbol .star]] := by
  obtain ⟨positional, varargs, keywordOnly, kwargs⟩ := ps
  obtain rfl : kwargs = none := hkwargs
  refine .offset fun pos => .eat (.expectName fun name => .pure ?_) (.eat ?_ ?_)
  · refine ⟨⟨positional, varargs, keywordOnly, some name⟩, ⟨hs.derives, hs.valid.ordered, ?_, ?_,
      hs.alone, hs.starred⟩, rfl⟩
    · simp [Params.declared]
    · simp [paramsRead, starRead]
  · simp only [↓reduceIte]
    split
    · exact .fail_bind
    · next hstar =>
      obtain ⟨rfl, rfl⟩ : varargs = none ∧ bare = false := by simpa [paramState] using hstar
      obtain rfl : keywordOnly = [] := hs.starred rfl rfl
      refine .eat (.pure ?_) (.expectName fun name => .pure ?_)
      · exact ⟨by simp, by simp [paramState], ⟨hs.derives, hs.valid, fun _ => rfl, by simp⟩,
          by simp [paramsRead, starRead]⟩
      · refine ⟨⟨positional, some name, [], none⟩, ⟨hs.derives, hs.valid.ordered, ?_, ?_, by simp,
          by simp⟩, ?_⟩
        · simp [Params.declared]
        · simp [paramsRead, starRead]
        · simp [paramState, Params.map, Params.declared]
  · refine .expectName fun name => .eat ?_ ?_
    · simp only [↓reduceIte, map_eq_pure_bind, bind_assoc, pure_bind]
      refine .bind h.expression fun us e he => ?_
      refine (paramNext_yields hs rfl (p := ⟨name, some ⟨us, e⟩⟩) (by simpa using he) pos).mono ?_
      rintro vs r ⟨rfl, ps', hadded, rfl⟩
      exact ⟨ps', by simpa [Param.tokens] using hadded, rfl⟩
    · simp only [Bool.false_eq_true, ↓reduceIte, pure_bind]
      refine (paramNext_yields hs rfl (p := ⟨name, none⟩) (by simp) pos).mono ?_
      rintro vs r ⟨rfl, ps', hadded, rfl⟩
      exact ⟨ps', by simpa [Param.tokens] using hadded, rfl⟩

/-- The loop over the parameters, and what it has read when it ends. -/
theorem parameterSteps_yields (h : Sound deeper) :
    Yields pre (iterate (parameterStep deeper) ⟨⟨[], none, [], none⟩, [], false⟩) fun us s =>
      ∃ (ps : Params Phrase) (bare : Bool) (ts : List Token), ParamsSound ps bare ∧
        Separated (paramsRead ps bare) ts ∧ us = ts ++ [.symbol .colon] ∧
        s = paramState ps bare := by
  refine .iterate (I := fun us s => ∃ (ps : Params Phrase) (bare : Bool), ParamsSound ps bare ∧
    us = commaEach (paramsRead ps bare) ∧ s = paramState ps bare) ?_ ?_
  · refine ⟨⟨[], none, [], none⟩, false, ?_, rfl, rfl⟩
    exact ⟨by simp [Params.defaults], ⟨.nil, .nil⟩, by simp, by simp⟩
  · rintro us s ⟨ps, bare, hs, rfl, rfl⟩
    refine .eat (.pure ⟨ps, bare, _, hs, .ofEach _, by simp, rfl⟩) ?_
    simp only [Bool.false_eq_true, ↓reduceIte]
    split
    · exact .fail_bind
    · next hkwargs =>
      have hkwargs : ps.kwargs = none := by simpa [paramState, Params.map] using hkwargs
      refine .offset fun pos => .bind (parameter_yields h hs hkwargs) ?_
      rintro ts ⟨name, s⟩ hr
      cases name with
      | none =>
        obtain ⟨rfl, rfl, hs', heq⟩ := hr
        exact .pure ⟨⟨ps, true, hs', by simp [heq, commaEach_append], rfl⟩, by simp⟩
      | some name =>
        obtain ⟨ps', hadded, rfl⟩ := hr
        dsimp only
        split
        · exact .failAt_bind
        · next hnew =>
          have hs' := hadded.sound hs (by simpa using hnew)
          have hstate : (⟨ps'.map Phrase.tree, name :: ps.declared.reverse,
              ps'.varargs.isSome || bare⟩ : ParamState) = paramState ps' bare := by
            simp [paramState, hadded.declared]
          have hsep := Separated.ofEach_last (paramsRead ps bare) ts
          rw [← hadded.tokens] at hsep
          refine .eat (.pure ⟨⟨ps', bare, hs', ?_, hstate⟩, by simp⟩) (.expect (.pure ?_))
          · simp [hadded.tokens, commaEach_append]
          · exact ⟨ps', bare, _, hs', hsep, by simp, hstate⟩

/-- The parameters of a lambda are valid, once the check for a last bare star has passed. -/
theorem parameters_yields (h : Sound deeper) :
    Yields pre (parameters deeper) fun us r =>
      ∃ (ps : Params Phrase) (ts : List Token),
        (∀ d ∈ ps.defaults, Derives True .expression d.tokens d.tree) ∧ ps.Valid ∧
        Separated ps.tokens ts ∧ us = ts ++ [.symbol .colon] ∧ r = ps.map Phrase.tree := by
  rw [parameters_eq]
  refine .bind (parameterSteps_yields h) ?_
  rintro us s ⟨ps, bare, ts, hs, hsep, rfl, rfl⟩
  split
  · exact .fail_bind
  · next hlast =>
    have hbare : bare = true → ps.keywordOnly ≠ [] := by
      rintro rfl hnil
      exact hlast (by simp [paramState, Params.map, hs.alone rfl, hnil])
    rw [hs.paramsRead_eq hbare] at hsep
    exact .pure ⟨ps, ts, hs.derives, hs.valid, hsep, by simp, rfl⟩

/-- Parameters, a colon and a body. -/
theorem lambda_yields (h : Sound deeper) :
    Yields pre (lambda deeper) fun ts e =>
      Derives True .function (.keyword .lambdaWord :: ts) e := by
  refine .bind (parameters_yields h) ?_
  rintro us r ⟨ps, ts, hds, hvalid, hsep, rfl, rfl⟩
  refine .bind h.expression fun bs body hbody => .pure ?_
  simpa using Derives.function hds hvalid hsep hbody

/-! ## Atoms and what trails them -/

/-- A number that can be read is a literal. -/
theorem literalAt_yields {α : Type} {pos : Nat} {value : Except SyntaxCause α}
    {make : α → Literal} {t : Token} (h : t.literal? = value.toOption.map make) :
    Yields pre (literalAt pos value make) fun ts e => Derives True .atom (t :: ts) e := by
  cases value with
  | error cause => exact .failAt
  | ok a => exact .pure (.literal h)

/-- The string literals that come next are ahead. -/
theorem leadingStrings_append (tokens : List Located) :
    ∃ rest, tokens.map (·.token) = (leadingStrings tokens).map .str ++ rest := by
  induction tokens with
  | nil => exact ⟨[], rfl⟩
  | cons t tokens ih =>
    obtain ⟨rest, hrest⟩ := ih
    unfold leadingStrings
    split
    · next value heq => exact ⟨rest, by simp [heq, hrest]⟩
    · exact ⟨_, rfl⟩

/-- String literals that stand next to one another are one literal. -/
theorem strings_yields {value : String} :
    Yields (fun ts => ts.head? = some (.str value)) strings fun ts s =>
      Derives True .atom ts (.literal (.str s)) := by
  intro c s c' hhead hrun
  obtain ⟨rfl, rfl⟩ : String.join (leadingStrings c.tokens) = s
      ∧ c.drop (leadingStrings c.tokens).length = c' := by simpa [strings] using hrun
  obtain ⟨rest, hrest⟩ := leadingStrings_append c.tokens
  refine ⟨(leadingStrings c.tokens).map .str, ?_, ?_⟩
  · simp only [Takes, Cursor.words_drop]
    rw [Cursor.words, hrest]
    simp
  · obtain ⟨vs, hvs⟩ := List.head?_eq_some_iff.1 hhead
    obtain ⟨t, tokens, hc, ht, -⟩ := List.map_eq_cons_iff.1 hvs
    rw [hc, leadingStrings, ht]
    exact .strings

/-- Brackets around an expression add nothing, and a comma makes a tuple. -/
theorem parenthesised_yields (h : Sound deeper) :
    Yields pre (parenthesised deeper) fun ts e =>
      Derives True .atom (.symbol .openParen :: ts) e := by
  refine .eat (.pure .unit) (.bind h.expression fun fs first hfirst => .eat (.pure ?_) ?_)
  · simpa using .brackets hfirst
  · refine .bind (itemsAfter_yields h .closeParen first).ahead ?_
    rintro us items ⟨⟨rest, -, hne⟩, ⟨rfl, -⟩ | ⟨ps, vs, hps, hsep, rfl, rfl⟩⟩
    · simp at hne
    · have hall : ∀ p ∈ (⟨fs, first⟩ : Phrase) :: ps, Derives True .expression p.tokens p.tree :=
        List.forall_mem_cons.2 ⟨hfirst, hps⟩
      exact .pure (by simpa using Derives.tuple hall hsep)

theorem listDisplay_yields (h : Sound deeper) :
    Yields pre (listDisplay deeper) fun ts e =>
      Derives True .atom (.symbol .openBracket :: ts) e := by
  refine .eat (.pure ?_) (.bind h.expression fun fs first hfirst => ?_)
  · exact @Derives.list True [] [] (by simp) .none
  · refine .bind (itemsAfter_yields h .closeBracket first) ?_
    rintro us items (⟨rfl, rfl⟩ | ⟨ps, vs, hps, hsep, rfl, rfl⟩)
    · refine .pure ?_
      simpa using @Derives.list True fs [⟨fs, first⟩] (by simpa using hfirst) (.last fs)
    · have hall : ∀ p ∈ (⟨fs, first⟩ : Phrase) :: ps, Derives True .expression p.tokens p.tree :=
        List.forall_mem_cons.2 ⟨hfirst, hps⟩
      exact .pure (by simpa using Derives.list hall (hsep.comma fs))

/-- By the token that an atom begins with. -/
theorem atom_yields (h : Sound deeper) : Yields pre (atom deeper) (Derives True .atom) := by
  refine .offset fun pos => .peek? fun t => ?_
  split
  · exact .fail
  · refine .bind (strings_yields.restrict fun ts hts => hts.2) fun ts s hs => .pure ?_
    simpa using hs
  · next token _ =>
    refine .skip [token] (fun us hus => List.head?_eq_some_iff.1 hus.2) ?_
    split
    · exact .pure .name
    · exact .pure (.literal rfl)
    · exact .pure (.literal rfl)
    · exact .pure (.literal rfl)
    · exact (lambda_yields h).mono fun ts e he => .bareFunction trivial he
    · exact literalAt_yields rfl
    · exact literalAt_yields rfl
    · exact literalAt_yields rfl
    · exact parenthesised_yields h
    · exact listDisplay_yields h
    · rw [map_eq_pure_bind]
      refine .bind (entries_yields h) ?_
      rintro us es ⟨ps, ts, hps, hsep, rfl, rfl⟩
      exact .pure (by simpa using Derives.dict hps.1 hps.2 hsep)
    · exact .failAt
    · exact .failAt

/-- A primary and one more trailer is a primary. -/
theorem primary_yields (h : Sound deeper) :
    Yields pre (primary deeper) (Derives True .primary) := by
  rw [primary_eq]
  refine .bind (atom_yields h) fun ts e he => ?_
  refine .iterate (I := fun us e => Derives True .primary (ts ++ us) e) ?_ ?_
  · simpa using .ofAtom he
  · intro us e he
    refine .eat (.expectName fun name => .pure ⟨?_, by simp⟩) (.eat ?_ (.eat ?_ (.pure ?_)))
    · simpa using Derives.dot he
    · refine .bind (arguments_yields h) ?_
      rintro vs es ⟨args, as, hds, ho, hsep, rfl, rfl⟩
      exact .pure ⟨by simpa using Derives.call he hds ho hsep, by simp⟩
    · refine .bind (subscript_yields h he) fun vs e' he' => .pure ⟨?_, by simp⟩
      simpa using he'
    · simpa using he

/-! ## Everything that is read -/

/-- What a rule of the parser reads is derived, if what stands one level deeper is. -/
theorem nested_succ_yields {room : Nat} (h : Sound (nested room)) : Sound (nested (room + 1)) := by
  intro entry
  have hsigned : Yields anywhere (signed (nested room)) (Derives True .signed) :=
    signed_yields h (primary_yields h)
  have hnegated : Yields anywhere (negated (nested room)) (Derives True .negated) :=
    negated_yields h (comparison_yields (binary_yields hsigned rfl (Nat.zero_le _)))
  cases entry with
  | signed => exact hsigned
  | negated => exact hnegated
  | expression =>
    refine .eat ((lambda_yields h).mono fun ts e he => .ofFunction he) ?_
    exact conditional_yields h (disjunction_yields hnegated)

/-- Whatever is read, with room for any number of levels, is derived. -/
theorem nested_yields (room : Nat) : Sound (nested room) := by
  induction room with
  | zero => exact fun entry => by cases entry <;> exact .fail
  | succ room ih => exact nested_succ_yields ih

end ExprLang
