import ExprLang.Proofs.Parsing.Agreement
import ExprLang.Proofs.Parsing.Depth

/-!
# Functions around an expression

A source that is a function around another source: the word `lambda`, parameters without defaults, a
colon, and the tokens of the other source. If the parameters may stand together, it is read as the
function whose body is what the other source is read as (`parse_function`) : the body stands one
level deeper than on its own, and comes to the same there by `nested_agrees`, or is too deep.
If one that collects has the name of one before it, the source is refused for that
(`parse_duplicate`).
-/

namespace ExprLang

open ExprLang.Parser

variable {ts us rest : List Token} {body : Expr} {source text : String} {c d : Cursor}

/-! ## The body -/

theorem Cursor.Beside.of_words (h : c.words = d.words) : c.Beside (fun _ _ => True) d := by
  have hmap : List.Forall₂ (· = ·) c.words d.words := h ▸ List.forall₂_refl _
  have htokens : List.Forall₂ (fun t u : Located => t.token = u.token) c.tokens d.tokens :=
    List.forall₂_map_left_iff.1 (List.forall₂_map_right_iff.1 hmap)
  exact ⟨htokens.imp fun _ _ ht => ⟨ht, trivial⟩, trivial⟩

/-- What follows a parser follows what the parser leads to. -/
theorem Parser.Leads.followed {α β : Type} {deep : Prop} {p q : Parser α}
    (h : Leads deep p ts rest q) (f : α → Parser β) : Leads deep (p >>= f) ts rest (q >>= f) := by
  intro c hc
  rcases h c hc with heq | ⟨hdeep, pos, herror⟩
  · exact .inl (by simp [Bind.bind, StateT.bind, heq])
  · exact .inr ⟨hdeep, pos, bind_error herror⟩

theorem Parser.Leads.run {α : Type} {p q : Parser α} (h : Leads False p ts rest q)
    (hc : c.words = ts ++ rest) : p c = q (c.drop ts.length) :=
  (h c hc).resolve_right fun hfalse => hfalse.1

/-- An expression to the end of the tokens, and what is made of it. -/
def Parser.ending (room : Nat) (f : Expr → Expr) : Parser Expr := do
  let e ← nested room .expression
  expectEnd
  pure (f e)

/-- An expression that is read to the end is read with less room, if it is not too deep for that. -/
theorem ending_agrees {room room' : Nat} (hroom : room' ≤ room) (f : Expr → Expr)
    {c' : Cursor} {e : Expr} (h : ending room id c = .ok (e, c')) (hwords : c.words = d.words) :
    (∃ d', ending room' f d = .ok (f e, d')) ∨
      ∃ pos, ending room' f d = .error ⟨pos, .tooDeep⟩ := by
  have hf : ending room f c = .ok (f e, c') := by
    obtain ⟨e', c₁, hexpression, hrun⟩ := bind_eq_ok.1 h
    obtain ⟨u, c₂, hend, hrun⟩ := bind_eq_ok.1 hrun
    obtain ⟨rfl, rfl⟩ := pure_eq_ok.1 hrun
    exact bind_eq_ok.2 ⟨_, _, hexpression, bind_eq_ok.2 ⟨_, _, hend, rfl⟩⟩
  have hagrees : Agrees (fun _ _ => True) True (ending room f) (ending room' f) :=
    .bind (nested_agrees hroom (fun _ => trivial) .expression) fun _ => .bind .expectEnd fun _ =>
      .pure _
  have hagreed := hagrees c d (.of_words hwords)
  rw [hf] at hagreed
  generalize ending room' f d = r at hagreed
  cases hagreed with
  | ok _ h => exact .inl ⟨_, rfl⟩
  | tooDeep => exact .inr ⟨_, rfl⟩

/-! ## Functions -/

/-- The tokens of a function around those of another source. -/
def functionTokens (hs bs : List Token) : List Token :=
  .keyword .lambdaWord :: (hs ++ .symbol .colon :: bs)

/-- The cursor of a source that is a function around another one. -/
theorem exists_cursor {items : List (List Token)} {hs : List Token}
    (hsource : sourceTokens source = functionTokens hs (sourceTokens text))
    (hitems : ∀ item ∈ items, Checked item) (hs : Separated items hs)
    (hbody : parse text = .ok body) :
    ∃ c, c.words = sourceTokens source ∧ parse source = whole.runOn c := by
  have hchecked : Checked (sourceTokens source) := by
    rw [hsource]
    exact .cons rfl ((hs.checked hitems).append (.cons rfl (derives_of_parse hbody).checked))
  obtain ⟨c, hc, hwords⟩ := hchecked.ofSource
  exact ⟨c, hwords, parse_eq_whole hc (by rw [hsource]; exact List.cons_ne_nil _ _)⟩

/-- A source that is a function around another one is read as the function around what that one is
read as, if it is not too deep. -/
theorem parse_function {ps : Params Phrase} {hs : List Token}
    (hsource : sourceTokens source = functionTokens hs (sourceTokens text))
    (hdefaults : ps.defaults = []) (hvalid : ps.Valid) (hsep : Separated ps.tokens hs)
    (hbody : parse text = .ok body) :
    parse source = .ok (.lambda (ps.map Phrase.tree) body) ∨
      ∃ pos, parse source = .error ⟨pos, .tooDeep⟩ := by
  have hitems : ∀ item ∈ ps.tokens, Checked item := Params.checked (by simp [hdefaults])
  obtain ⟨c, hwords, hparse⟩ := exists_cursor hsource hitems hsep hbody
  obtain ⟨c₀, c₁, hc₀, hwhole⟩ := whole_of_parse hbody
  have hnone : Items 0 ps.defaults := by
    rw [hdefaults]
    exact ⟨by simp, by simp, by simp⟩
  have hparameters : Leads False (parameters (nested (maxNesting - 1))) (hs ++ [.symbol .colon])
      (sourceTokens text) (pure (ps.map Phrase.tree)) :=
    (leads_parameters hnone hvalid hsep).weaken (Nat.not_lt_zero _)
  let header : List Token := .keyword .lambdaWord :: (hs ++ [.symbol .colon])
  have hall : c.words = header ++ sourceTokens text := by
    rw [hwords, hsource]
    simp [functionTokens, header]
  have hheader : Leads False (nested maxNesting .expression) header (sourceTokens text)
      (nested (maxNesting - 1) .expression >>= fun body =>
        pure (.lambda (ps.map Phrase.tree) body)) :=
    .eat (.bind hparameters)
  have hrun : whole c
      = ending (maxNesting - 1) (.lambda (ps.map Phrase.tree)) (c.drop header.length) := by
    have hwhole : whole c = _ := (hheader.followed fun e => expectEnd >>= fun _ => pure e).run hall
    rw [hwhole, bind_assoc]
    rfl
  have hrest : c₀.words = (c.drop header.length).words := by
    rw [ofSource_eq_ok hc₀, Cursor.words_drop, hall, List.drop_left]
  rw [hparse, runOn, StateT.run, hrun]
  rcases ending_agrees (Nat.sub_le _ _) (.lambda (ps.map Phrase.tree)) hwhole hrest with
    ⟨d', hok⟩ | ⟨pos, herror⟩
  · exact .inl (by rw [hok]; rfl)
  · exact .inr ⟨pos, by rw [herror]; rfl⟩

/-! ## Names that were there before -/

/-- Parameters that are plain names, and perhaps ones that collect what is left over. -/
def Params.gathering {ε : Type} (names : List String) (varargs kwargs : Option String) : Params ε :=
  ⟨names.map (⟨·, none⟩), varargs, [], kwargs⟩

theorem Separated.split {xs items : List (List Token)} (h : Separated (xs ++ items) ts)
    (hne : items ≠ []) : ∃ us, ts = commaEach xs ++ us ∧ Separated items us := by
  induction xs generalizing ts with
  | nil => exact ⟨ts, rfl, h⟩
  | cons x xs ih =>
    rw [List.cons_append] at h
    generalize hys : xs ++ items = ys at h
    cases h with
    | last => exact absurd (List.append_eq_nil_iff.1 hys).2 hne
    | comma _ hrest =>
      obtain ⟨us, rfl, hus⟩ := ih (hys ▸ hrest)
      exact ⟨us, by simp [commaEach], hus⟩

/-- After an item comes a comma or the colon. -/
theorem Separated.colon_split {item : List Token} {items : List (List Token)}
    (h : Separated (item :: items) ts) (rest : List Token) :
    ∃ us, ts ++ .symbol .colon :: rest = item ++ us ∧ continuation us < 1 ∧
      us.head? ≠ some (.symbol .assign) := by
  cases h with
  | last => exact ⟨.symbol .colon :: rest, rfl, Nat.zero_lt_one, by simp⟩
  | @comma _ _ us =>
    exact ⟨.symbol .comma :: (us ++ .symbol .colon :: rest), by simp, Nat.zero_lt_one, by simp⟩

/-- A parameter whose name was there before. -/
theorem iterate_duplicate {deeper : Nested} {s next : ParamState} {name : String}
    {item : List Token} {items : List (List Token)}
    (hitem : ∀ us, (item ++ us).head? ≠ some (.symbol .colon)) (hkwargs : s.params.kwargs = none)
    (hone : ∀ us, continuation us < 1 → us.head? ≠ some (.symbol .assign) →
      Leads False (parameter deeper s) item us (pure (some name, next)))
    (hseen : name ∈ next.seen) (hs : Separated (item :: items) ts)
    (hc : c.words = ts ++ .symbol .colon :: rest) :
    ∃ pos, iterate (parameterStep deeper) s c = .error ⟨pos, .duplicateParameter name⟩ := by
  obtain ⟨us, hus, hcontinuation, hassign⟩ := hs.colon_split rest
  rw [hus] at hc
  have hparameter : parameter deeper s c = .ok ((some name, next), c.drop item.length) :=
    (hone us hcontinuation hassign).run hc
  have hcontains : next.seen.contains name = true := by simpa using hseen
  have hstep : parameterStep deeper s c = .error ⟨c.offset, .duplicateParameter name⟩ := by
    unfold parameterStep eatSymbol
    rw [eat_other (by rw [hc]; exact hitem us)]
    simp only [Bool.false_eq_true, ↓reduceIte, hkwargs, Option.isSome_none]
    rw [bind_of_ok (show offset c = .ok (c.offset, c) from rfl), bind_of_ok hparameter]
    simp only [hcontains, ↓reduceIte]
    rfl
  exact ⟨c.offset, by rw [iterate, hstep]⟩

/-- Plain names with commas after them, none of which was there before. -/
theorem leads_names {room : Nat} {s : ParamState} {names : List String}
    (hstar : s.starSeen = false) (hkwargs : s.params.kwargs = none)
    (hplain : ∀ p ∈ s.params.positional, p.default = none)
    (hnodup : (s.seen.reverse ++ names).Nodup) :
    Leads False (iterate (parameterStep (nested room)) s)
      (commaEach (names.map fun name => [.name name])) rest
      (iterate (parameterStep (nested room)) (s.declare (names.map (⟨·, none⟩)))) := by
  induction names generalizing s with
  | nil => simpa [commaEach] using Leads.refl _ _
  | cons name names ih =>
    have hnew : name ∉ (s.withParam ⟨name, none⟩).seen := by
      rw [withParam_seen]
      intro hmem
      exact (List.nodup_append.1 hnodup).2.2 _ (List.mem_reverse.2 hmem) _ (by simp) rfl
    have hone : ∀ us, continuation us < 1 → us.head? ≠ some (.symbol .assign) →
        Leads False (parameter (nested room) s) [.name name] us
          (pure (some name, s.withParam ⟨name, none⟩)) := by
      intro us hus hassign
      have hnone : Items 0 (Param.mk name (none : Option Phrase)).default.toList :=
        ⟨by simp, by simp, by simp⟩
      refine (leads_param hnone (fun _ hany => ?_) hus hassign).weaken (Nat.not_lt_zero _)
      obtain ⟨q, hq, hsome⟩ := (Option.any_eq_true _ _).1 hany
      simp [hplain q (List.mem_of_getLast? hq)] at hsome
    have hdeclared : (s.withParam ⟨name, none⟩).see name = s.declare [⟨name, none⟩] :=
      (declare_singleton s ⟨name, none⟩).symm
    have hfirst : Leads False (iterate (parameterStep (nested room)) s)
        ([.name name] ++ [.symbol .comma]) (commaEach (names.map fun name => [.name name]) ++ rest)
        (iterate (parameterStep (nested room)) (s.declare [⟨name, none⟩])) := by
      rw [← hdeclared]
      exact leads_parameterComma (by simp) hkwargs hnew hone
    have hlater := ih (s := s.declare [⟨name, none⟩]) (by rw [declare_starSeen, hstar])
      (by rw [declare_kwargs, hkwargs])
      (by simpa [ParamState.declare, hstar, or_imp, forall_and] using hplain)
      (by simpa [declare_seen] using hnodup)
    rw [← declare_cons] at hlater
    simpa [commaEach] using hfirst.trans hlater

/-- A double star with a name that was there before. -/
theorem doubleStar_duplicate (deeper : Nested) {s : ParamState} {k : String}
    (hkwargs : s.params.kwargs = none) (hk : k ∈ s.seen)
    (hs : Separated [[.symbol .power, .name k]] ts) (hc : c.words = ts ++ .symbol .colon :: rest) :
    ∃ pos, iterate (parameterStep deeper) s c = .error ⟨pos, .duplicateParameter k⟩ :=
  iterate_duplicate (by simp) hkwargs (fun _ _ _ => leads_doubleStar s k) hk hs hc

/-- A parameter that collects has a name that was there before. -/
theorem collecting_duplicate {deeper : Nested} {s : ParamState} {varargs kwargs : Option String}
    (hstar : s.starSeen = false) (hkwargs : s.params.kwargs = none)
    (hdup : (∃ a ∈ varargs, a ∈ s.seen) ∨ ∃ k ∈ kwargs, k ∈ varargs.toList ++ s.seen)
    (hs : Separated (Params.gathering [] varargs kwargs).tokens ts)
    (hc : c.words = ts ++ .symbol .colon :: rest) :
    ∃ pos, ∃ name ∈ varargs.toList ++ kwargs.toList,
      iterate (parameterStep deeper) s c = .error ⟨pos, .duplicateParameter name⟩ := by
  cases varargs with
  | none =>
    obtain ⟨k, rfl, hk⟩ : ∃ k, kwargs = some k ∧ k ∈ s.seen := by simpa using hdup
    obtain ⟨pos, herror⟩ := doubleStar_duplicate deeper hkwargs hk hs hc
    exact ⟨pos, k, by simp, herror⟩
  | some a =>
    by_cases ha : a ∈ s.seen
    · obtain ⟨pos, herror⟩ := iterate_duplicate (by simp) hkwargs
        (fun us _ _ => leads_singleStar a hstar) ha hs hc
      exact ⟨pos, a, by simp, herror⟩
    · obtain ⟨k, rfl, hk⟩ : ∃ k, kwargs = some k ∧ k ∈ a :: s.seen := by simpa [ha] using hdup
      have hsplit : Separated ([[.symbol .star, .name a]] ++ [[.symbol .power, .name k]]) ts := hs
      obtain ⟨us, rfl, hus⟩ := hsplit.split (List.cons_ne_nil _ _)
      let next : ParamState := ⟨{ s.params with varargs := some a }, s.seen, true⟩
      have hstep : Leads False (iterate (parameterStep deeper) s)
          ([.symbol .star, .name a] ++ [.symbol .comma]) (us ++ .symbol .colon :: rest)
          (iterate (parameterStep deeper) (next.see a)) :=
        leads_parameterComma (by simp) hkwargs ha fun us _ _ => leads_singleStar a hstar
      have hrest : (c.drop 3).words = us ++ .symbol .colon :: rest := by
        rw [Cursor.words_drop, hc]
        simp [commaEach]
      obtain ⟨pos, herror⟩ :=
        @doubleStar_duplicate us rest _ deeper (next.see a) k hkwargs hk hus hrest
      exact ⟨pos, k, by simp, (hstep.run (by simpa [commaEach] using hc)).trans herror⟩

/-- A source that is a function around another one is refused if a parameter that collects has the
name of one before it. -/
theorem parse_duplicate {names : List String} {varargs kwargs : Option String} {hs : List Token}
    (hsource : sourceTokens source = functionTokens hs (sourceTokens text)) (hnames : names.Nodup)
    (hdup : (∃ a ∈ varargs, a ∈ names) ∨ ∃ k ∈ kwargs, k ∈ varargs.toList ++ names)
    (hsep : Separated (Params.gathering names varargs kwargs).tokens hs)
    (hbody : parse text = .ok body) :
    ∃ pos, ∃ name ∈ varargs.toList ++ kwargs.toList,
      parse source = .error ⟨pos, .duplicateParameter name⟩ := by
  have hitems : ∀ item ∈ (Params.gathering names varargs kwargs : Params Phrase).tokens,
      Checked item := Params.checked (by simp [Params.gathering, Params.defaults])
  obtain ⟨c, hwords, hparse⟩ := exists_cursor hsource hitems hsep hbody
  have htokens : (Params.gathering names varargs kwargs : Params Phrase).tokens
      = (names.map fun name => [.name name]) ++ (Params.gathering [] varargs kwargs).tokens := by
    simp [Params.gathering, Params.tokens, Params.starTokens, Param.tokens, Function.comp_def]
  have hne : (Params.gathering [] varargs kwargs : Params Phrase).tokens ≠ [] := by
    cases varargs <;> cases kwargs <;>
      simp [Params.gathering, Params.tokens, Params.starTokens] at hdup ⊢
  obtain ⟨us, rfl, hus⟩ := (htokens ▸ hsep).split hne
  let header : List Token := .keyword .lambdaWord :: commaEach (names.map fun name => [.name name])
  have hall : c.words = header ++ (us ++ .symbol .colon :: sourceTokens text) := by
    rw [hwords, hsource]
    simp [functionTokens, header]
  let initial : ParamState := ⟨⟨[], none, [], none⟩, [], false⟩
  let s : ParamState := initial.declare (names.map (⟨·, none⟩))
  have hseen : s.seen = names.reverse := by simp [s, initial, declare_seen, Function.comp_def]
  have hplain : Leads False (iterate (parameterStep (nested (maxNesting - 1))) initial)
      (commaEach (names.map fun name => [.name name]))
      (us ++ .symbol .colon :: sourceTokens text)
      (iterate (parameterStep (nested (maxNesting - 1))) s) :=
    leads_names rfl rfl (by simp [initial]) (by simpa [initial] using hnames)
  have hheader : Leads False (nested maxNesting .expression) header
      (us ++ .symbol .colon :: sourceTokens text) _ :=
    .eat (.followed (.followed hplain _) _)
  have hrest : (c.drop header.length).words = us ++ .symbol .colon :: sourceTokens text := by
    rw [Cursor.words_drop, hall, List.drop_left]
  obtain ⟨pos, name, hname, herror⟩ :=
    @collecting_duplicate us _ _ (nested (maxNesting - 1)) s varargs kwargs rfl rfl
      (by simpa [hseen] using hdup) hus hrest
  have hwhole : whole c = .error ⟨pos, .duplicateParameter name⟩ :=
    ((hheader.followed _).run hall).trans (bind_error (bind_error (bind_error herror)))
  exact ⟨pos, name, hname, by rw [hparse, runOn, StateT.run, hwhole]; rfl⟩

end ExprLang
