import ExprLang.Proofs.Parsing.Completeness
import ExprLang.Proofs.Parsing.Soundness

/-!
# The language of `parse`

`parse_exact` : an expression that `parse` returns is derived from all tokens of the source; and an
expression that is derived from all tokens of a source without the word `lambda` is returned, or
the source is refused because it is nested too deeply. That happens only to sources of at least
`maxNesting` tokens. `parse_of_derives` says the second part of all sources, for derivations in
which functions stand in brackets or as a whole expression.

Before it parses, `parse` checks the brackets and the words. What is derived passes the check
(`Derives.checked`) : its tokens leave the count of open brackets as it was.
-/

namespace ExprLang

open ExprLang.Parser

/-! ## Checked tokens -/

/-- Tokens that pass the check and leave the count of open brackets as it was. -/
def Checked (ts : List Token) : Prop :=
  ∀ ending depth (ls rest : List Located), ls.map (·.token) = ts →
    checkTokens ending depth (ls ++ rest) = checkTokens ending depth rest

/-- Tokens that are words, and no brackets. -/
def Token.isPlain : Token → Bool
  | .unterminated | .invalid _ => false
  | .symbol s => !s.isOpening && !s.isClosing
  | _ => true

theorem Checked.nil : Checked [] := by
  intro ending depth ls rest hls
  obtain rfl : ls = [] := by simpa using hls
  rfl

/-- Tokens are checked one by one. -/
theorem Checked.append {ts us : List Token} (hts : Checked ts) (hus : Checked us) :
    Checked (ts ++ us) := by
  intro ending depth ls rest hls
  obtain ⟨as, bs, rfl, has, hbs⟩ := List.map_eq_append_iff.1 hls
  rw [List.append_assoc, hts ending depth as _ has, hus ending depth bs _ hbs]

/-- A plain token needs no check. -/
theorem Checked.cons {t : Token} {ts : List Token} (ht : t.isPlain = true) (hts : Checked ts) :
    Checked (t :: ts) := by
  intro ending depth ls rest hls
  obtain ⟨l, ls, rfl, rfl, htail⟩ := List.map_eq_cons_iff.1 hls
  rw [List.cons_append, ← hts ending depth ls rest htail]
  cases hl : l.token with
  | symbol s =>
    obtain ⟨hopen, hclose⟩ : s.isOpening = false ∧ s.isClosing = false := by
      simpa [Token.isPlain, hl] using ht
    cases depth <;> simp [checkTokens, hl, hopen, hclose]
  | invalid c => simp [Token.isPlain, hl] at ht
  | unterminated => simp [Token.isPlain, hl] at ht
  | _ => cases depth <;> simp [checkTokens, hl]

/-- Brackets around checked tokens. -/
theorem Checked.brackets {o c : Symbol} {ts : List Token} (hopen : o.isOpening = true)
    (hclose : c.isClosing = true) (hts : Checked ts) :
    Checked (.symbol o :: (ts ++ [.symbol c])) := by
  intro ending depth ls rest hls
  obtain ⟨l, ls, rfl, hl, htail⟩ := List.map_eq_cons_iff.1 hls
  obtain ⟨as, bs, rfl, has, hbs⟩ := List.map_eq_append_iff.1 htail
  obtain ⟨r, bs, rfl, hr, hnil⟩ := List.map_eq_cons_iff.1 hbs
  obtain rfl : bs = [] := by simpa using hnil
  have hno : c.isOpening = false := by
    cases c <;> first | rfl | simp [Symbol.isClosing] at hclose
  have hstart : checkTokens ending depth (l :: (as ++ [r]) ++ rest)
      = checkTokens ending (depth + 1) (as ++ ([r] ++ rest)) := by
    cases depth <;> simp [checkTokens, hl, hopen]
  rw [hstart, hts ending (depth + 1) as _ has]
  simp [checkTokens, hr, hno, hclose]

theorem Checked.flatMap {α : Type} {f : α → List Token} {xs : List α}
    (h : ∀ x ∈ xs, Checked (f x)) : Checked (xs.flatMap f) := by
  induction xs with
  | nil => exact .nil
  | cons x xs ih =>
    exact (h x (by simp)).append (ih fun y hy => h y (by simp [hy]))

theorem Separated.checked {items : List (List Token)} {ts : List Token} (hs : Separated items ts)
    (h : ∀ item ∈ items, Checked item) : Checked ts := by
  induction hs with
  | none => exact .nil
  | last ts => exact h ts (by simp)
  | comma ts _ ih =>
    exact (h ts (by simp)).append (.cons rfl (ih fun item hitem => h item (by simp [hitem])))

theorem Param.checked {p : Param Phrase} (h : ∀ d ∈ p.default, Checked d.tokens) :
    Checked p.tokens := by
  obtain ⟨name, default⟩ := p
  cases default with
  | none => exact .cons rfl .nil
  | some d => exact .cons rfl (.cons rfl (h d rfl))

theorem Params.checked {ps : Params Phrase} (h : ∀ d ∈ ps.defaults, Checked d.tokens) :
    ∀ item ∈ ps.tokens, Checked item := by
  have hnamed : ∀ p ∈ ps.positional ++ ps.keywordOnly, Checked p.tokens := fun p hp =>
    p.checked fun d hd => h d (List.mem_filterMap.2 ⟨p, hp, hd⟩)
  have hstar : ∀ item ∈ ps.starTokens, Checked item := by
    unfold Params.starTokens
    split
    · exact List.forall_mem_singleton.2 (.cons rfl (.cons rfl .nil))
    · split
      · simp
      · exact List.forall_mem_singleton.2 (.cons rfl .nil)
  intro item hitem
  simp only [Params.tokens, List.mem_append, List.mem_map] at hitem
  rcases hitem with ((⟨p, hp, rfl⟩ | hitem) | ⟨p, hp, rfl⟩) | hitem
  · exact hnamed p (List.mem_append_left _ hp)
  · exact hstar item hitem
  · exact hnamed p (List.mem_append_right _ hp)
  · obtain ⟨name, -, rfl⟩ :
        ∃ name, ps.kwargs = some name ∧ [.symbol .power, .name name] = item := by
      simpa using hitem
    exact .cons rfl (.cons rfl .nil)

theorem Argument.checked {a : Argument Phrase} (h : Checked a.value.tokens) :
    Checked a.tokens := by
  cases a with
  | positional p => exact h
  | star p => exact .cons rfl h
  | keyword name p => exact .cons rfl (.cons rfl h)
  | doubleStar p => exact .cons rfl h

theorem Comparison.checked (link : Comparison) : Checked link.tokens := by
  cases link <;> first | exact .cons rfl .nil | exact .cons rfl (.cons rfl .nil)

theorem Checked.part {part : Option Phrase} (h : ∀ p ∈ part, Checked p.tokens) :
    Checked (partTokens part) := by
  cases part with
  | none => exact .nil
  | some p => exact h p rfl

theorem stepTokens_checked {step : Option (Option Phrase)}
    (h : ∀ p ∈ step.join, Checked p.tokens) : Checked (stepTokens step) := by
  cases step with
  | none => exact .nil
  | some part => exact .cons rfl (.part (by simpa using h))

/-- Items are checked if each is. -/
theorem items_checked {first : Phrase} {items : List Phrase}
    (h : ∀ p ∈ first :: items, Checked p.tokens) :
    ∀ item ∈ items.map Phrase.tokens, Checked item := by
  simp only [List.forall_mem_map]
  exact fun p hp => h p (List.mem_cons_of_mem _ hp)

/-- A token with a value is plain. -/
theorem Token.isPlain_of_literal? {t : Token} {v : Literal} (h : t.literal? = some v) :
    t.isPlain = true := by
  unfold Token.literal? at h
  split at h <;> simp_all [Token.isPlain]

/-- What is derived passes the check. -/
theorem Derives.checked {bare : Prop} {level : Level} {ts : List Token} {e : Expr}
    (h : Derives bare level ts e) : Checked ts := by
  induction h with
  | ofFunction _ ih | ofDisjunction _ ih | ofConjunction _ ih | ofNegated _ ih
  | ofComparison _ ih | ofBinary _ ih | tighter _ _ ih | ofSigned _ ih | ofPower _ ih
  | ofPrimary _ ih | ofAtom _ ih | bareFunction _ _ ih => exact ih
  | conditional _ _ _ ihy iht ihn => exact ihy.append (.cons rfl (iht.append (.cons rfl ihn)))
  | function _ _ hs _ ihs ih =>
    exact .cons rfl ((hs.checked (Params.checked ihs)).append (.cons rfl ih))
  | or _ _ ihl ihr | and _ _ ihl ihr | power _ _ ihl ihr => exact ihl.append (.cons rfl ihr)
  | not _ ih => exact .cons rfl ih
  | compare _ _ _ ih ihs =>
    exact ih.append (.flatMap fun l hl => l.1.checked.append (ihs l hl))
  | binary hn hs _ _ ihl ihr =>
    have table : ∀ level ∈ binaryLevels, ∀ p ∈ level, (Token.symbol p.1).isPlain = true := by decide
    exact ihl.append (.cons (table _ (List.getElem_mem hn) _ hs) ihr)
  | @sign op _ _ _ ih => exact .cons (by cases op <;> rfl) ih
  | dot _ ih => exact ih.append (.cons rfl (.cons rfl .nil))
  | call _ _ _ hs ih ihs =>
    refine ih.append (.brackets rfl rfl (hs.checked ?_))
    simp only [List.forall_mem_map]
    exact fun a ha => Argument.checked (ihs a ha)
  | item _ _ ih ihi => exact ih.append (.brackets rfl rfl ihi)
  | itemTuple _ _ hs ih ihs =>
    have hinside := (ihs _ (List.mem_cons_self ..)).append
      (.cons (t := .symbol .comma) rfl (hs.checked (items_checked ihs)))
    simpa using ih.append (.brackets (o := .openBracket) (c := .closeBracket) rfl rfl hinside)
  | slice _ _ _ _ ih ihl ihu ihs =>
    have hstep := stepTokens_checked ihs
    have hinside := (Checked.part ihl).append
      (.cons (t := .symbol .colon) rfl ((Checked.part ihu).append hstep))
    simpa using ih.append (.brackets (o := .openBracket) (c := .closeBracket) rfl rfl hinside)
  | name => exact .cons rfl .nil
  | literal h => exact .cons (Token.isPlain_of_literal? h) .nil
  | strings =>
    rw [List.map_eq_flatMap]
    exact .flatMap fun _ _ => .cons rfl .nil
  | brackets _ ih => exact .brackets rfl rfl ih
  | unit => exact .brackets rfl rfl .nil
  | tuple _ hs ihs =>
    have hinside := (ihs _ (List.mem_cons_self ..)).append
      (.cons (t := .symbol .comma) rfl (hs.checked (items_checked ihs)))
    simpa using Checked.brackets (o := .openParen) (c := .closeParen) rfl rfl hinside
  | list _ hs ihs =>
    refine .brackets rfl rfl (hs.checked ?_)
    simpa only [List.forall_mem_map] using ihs
  | dict _ _ hs ihk ihv =>
    refine .brackets rfl rfl (hs.checked ?_)
    simp only [List.forall_mem_map]
    exact fun p hp => (ihk p hp).append (.cons rfl (ihv p hp))

/-! ## Sources -/

/-- The tokens of a source, without where they stand. -/
def sourceTokens (source : String) : List Token :=
  (tokens source).map (·.token)

/-- The tokens that are parsed are those of the source. -/
theorem ofSource_eq_ok {source : String} {c : Cursor} (h : Cursor.ofSource source = .ok c) :
    c.words = sourceTokens source := by
  simp only [Cursor.ofSource, bind, Except.bind] at h
  split at h
  · simp at h
  · obtain rfl := Except.ok.inj h
    rfl

/-- The cursor of a source whose tokens are checked. -/
theorem Checked.ofSource {source : String} (h : Checked (sourceTokens source)) :
    ∃ c, Cursor.ofSource source = .ok c ∧ c.words = sourceTokens source := by
  have hcheck : checkTokens source.utf8ByteSize 0 (tokens source) = .ok () := by
    have := h source.utf8ByteSize 0 (tokens source) [] rfl
    simpa [checkTokens] using this
  refine ⟨Cursor.start (tokens source) source.utf8ByteSize, ?_, rfl⟩
  simp [Cursor.ofSource, Cursor.start, hcheck, bind, Except.bind, pure, Except.pure]

/-- A source with tokens is parsed from its first token to the end. -/
theorem parse_eq_whole {source : String} {c : Cursor} (h : Cursor.ofSource source = .ok c)
    (hne : sourceTokens source ≠ []) : parse source = whole.runOn c := by
  have htokens : c.tokens.isEmpty = false := by
    rw [← ofSource_eq_ok h, Cursor.words] at hne
    simpa using hne
  simp [parse, h, bind, Except.bind, htokens]

/-- An expression that takes all tokens is read as the whole. -/
theorem leads_whole {ts : List Token} {e : Expr} (h : Reads .expression ts e) :
    Leads (maxNesting ≤ ts.length) whole ts [] (pure e) := by
  have hexpression : Leads (maxNesting < ts.length + 1) (nested maxNesting .expression) ts []
      (pure e) := h.within .expression (by decide) (Nat.lt_succ_self _)
  have hexpression := hexpression.weaken Nat.lt_succ_iff.1
  have hend : Leads (maxNesting ≤ ts.length) expectEnd [] [] (pure ()) := .peek? (.refl _ _)
  exact .trans_nil (.bind hexpression) (.bind hend)

/-- A source is read as what is derived from its tokens, functions standing in brackets or being
the whole of an expression, or it is refused because it is nested too deeply. -/
theorem parse_of_derives {source : String} {e : Expr}
    (h : Derives False .expression (sourceTokens source) e) :
    parse source = .ok e ∨ maxNesting ≤ (sourceTokens source).length ∧
      ∃ pos, parse source = .error ⟨pos, .tooDeep⟩ := by
  obtain ⟨c, hc, hwords⟩ := h.checked.ofSource
  rw [parse_eq_whole hc h.ne_nil]
  rcases leads_whole h.reads c (by simpa using hwords) with hrun | ⟨hdeep, pos, hrun⟩
  · exact .inl (by simp [runOn, StateT.run, hrun, pure_run, Except.map])
  · exact .inr ⟨hdeep, pos, by simp [runOn, StateT.run, hrun, Except.map]⟩

/-- A short source is not nested too deeply. -/
theorem parse_of_derives_short {source : String} {e : Expr}
    (hshort : (sourceTokens source).length < maxNesting)
    (h : Derives False .expression (sourceTokens source) e) : parse source = .ok e := by
  rcases parse_of_derives h with hparse | ⟨hdeep, -⟩
  · exact hparse
  · omega

/-- At the end no token is left. -/
theorem expectEnd_eq_ok {c c' : Cursor} {u : Unit} (h : expectEnd c = .ok (u, c')) :
    c.words = [] := by
  obtain ⟨t, c₁, hpeek, h⟩ := bind_eq_ok.1 h
  obtain ⟨hhead, rfl⟩ := peek?_eq_ok.1 hpeek
  split at h
  · exact absurd h unexpected_ne_ok
  · next hnone =>
    rw [← hhead] at hnone
    simpa using hnone

/-- What is parsed is parsed by `whole`. -/
theorem whole_of_runOn {c : Cursor} {e : Expr} (h : whole.runOn c = .ok e) :
    ∃ c', whole c = .ok (e, c') := by
  unfold runOn StateT.run at h
  cases hrun : whole c with
  | error err => simp [hrun, Except.map] at h
  | ok r =>
    obtain ⟨e', c'⟩ := r
    obtain rfl : e' = e := by simpa [hrun, Except.map] using h
    exact ⟨c', rfl⟩

/-- What `parse` returns is what the whole of the tokens is read as. -/
theorem whole_of_parse {source : String} {e : Expr} (h : parse source = .ok e) :
    ∃ c c', Cursor.ofSource source = .ok c ∧ whole c = .ok (e, c') := by
  cases hc : Cursor.ofSource source with
  | error err => simp [parse, hc, bind, Except.bind] at h
  | ok c =>
    by_cases hnil : sourceTokens source = []
    · have htokens : c.tokens.isEmpty = true := by
        rw [← ofSource_eq_ok hc, Cursor.words] at hnil
        simpa using hnil
      simp [parse, hc, bind, Except.bind, htokens] at h
    · rw [parse_eq_whole hc hnil] at h
      obtain ⟨c', hrun⟩ := whole_of_runOn h
      exact ⟨c, c', rfl, hrun⟩

/-- What the whole of the tokens is read as is derived from them. -/
theorem derives_of_whole {c c' : Cursor} {e : Expr} (h : whole c = .ok (e, c')) :
    Derives True .expression c.words e := by
  obtain ⟨e₁, c₁, hexpression, h⟩ := bind_eq_ok.1 h
  obtain ⟨u, c₂, hend, h⟩ := bind_eq_ok.1 h
  obtain ⟨rfl, rfl⟩ := pure_eq_ok.1 h
  obtain ⟨ts, htakes, hd⟩ := nested_yields maxNesting .expression c e₁ c₁ trivial hexpression
  have hwords : c.words = ts := by simpa [Takes, expectEnd_eq_ok hend] using htakes
  rw [hwords]
  exact hd

/-- What `parse` returns is derived from all tokens of the source. -/
theorem derives_of_parse {source : String} {e : Expr} (h : parse source = .ok e) :
    Derives True .expression (sourceTokens source) e := by
  obtain ⟨c, c', hc, hrun⟩ := whole_of_parse h
  rw [← ofSource_eq_ok hc]
  exact derives_of_whole hrun

/-- `parse` accepts what the grammar derives, with the same tree. -/
theorem parse_exact (source : String) (e : Expr) :
    (parse source = .ok e → Derives True .expression (sourceTokens source) e) ∧
      (.keyword .lambdaWord ∉ sourceTokens source →
        Derives True .expression (sourceTokens source) e →
        parse source = .ok e ∨ maxNesting ≤ (sourceTokens source).length ∧
          ∃ pos, parse source = .error ⟨pos, .tooDeep⟩) :=
  ⟨derives_of_parse, fun hlambda h => parse_of_derives (h.of_bare hlambda)⟩

/-- Both directions for one source. -/
theorem parse_exact_sum :
    Derives True .expression (sourceTokens "a + b") (.binary .add (.var "a") (.var "b")) ∧
      parse "a + b" = .ok (.binary .add (.var "a") (.var "b")) := by
  have htokens : sourceTokens "a + b" = [.name "a", .symbol .plus, .name "b"] := by decide +kernel
  have hname : ∀ name, Derives False .primary [.name name] (.var name) := fun _ => .ofAtom .name
  have hsum : Derives False .expression (sourceTokens "a + b")
      (.binary .add (.var "a") (.var "b")) := by
    rw [htokens]
    exact .expression_of_negated (.ofComparison (.ofBinary
      (.operation .add (hname "a") (hname "b").signed_of_primary)))
  have hparse := parse_of_derives_short (by rw [htokens]; decide) hsum
  have hderives := (parse_exact "a + b" _).1 hparse
  have hshort : ¬maxNesting ≤ (sourceTokens "a + b").length := by
    rw [htokens]
    decide
  exact ⟨hderives, ((parse_exact "a + b" _).2 (by rw [htokens]; decide) hderives).resolve_right
    fun hdeep => hshort hdeep.1⟩

end ExprLang
