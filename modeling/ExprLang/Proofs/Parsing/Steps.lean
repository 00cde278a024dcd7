import ExprLang.Expr.Parser

/-!
# Parsers step by step

Two ways to follow a parser. A success is taken apart: `Yields pre p post` says that the tokens
which `p` takes and its result are as in `post`, and has a rule for each way to put parsers
together; a repetition keeps an invariant of the tokens taken so far. A run is put together from
its tokens: `Leads deep p ts rest q` says that in front of `ts` and then `rest`, the parser `p`
takes `ts` and goes on as `q`, and one lemma per primitive adds a step at the front
(`Leads.eatSymbol`, `Leads.iterate`). With `deep` the run may instead have failed because it was
nested too deeply, and in no other way.
-/

namespace ExprLang

/-! ## Cursors -/

/-- The tokens in front of a cursor. -/
def Cursor.words (c : Cursor) : List Token :=
  c.tokens.map (·.token)

@[simp] theorem Cursor.words_drop (n : Nat) (c : Cursor) : (c.drop n).words = c.words.drop n := by
  simp [Cursor.words, Cursor.drop]

/-- What is left is counted in tokens. -/
theorem Cursor.left_eq_length (c : Cursor) : c.left = c.words.length := by
  simp [Cursor.words, c.left_eq]

@[simp] theorem Cursor.drop_zero (c : Cursor) : c.drop 0 = c := by
  cases c
  simp [Cursor.drop]

@[simp] theorem Cursor.drop_drop (m n : Nat) (c : Cursor) :
    (c.drop m).drop n = c.drop (m + n) := by
  simp [Cursor.drop, Nat.sub_sub]

/-- Between two cursors stand the tokens `ts`. -/
def Takes (c : Cursor) (ts : List Token) (c' : Cursor) : Prop :=
  c.words = ts ++ c'.words

theorem Takes.nil (c : Cursor) : Takes c [] c := rfl

/-- One part taken after the other. -/
theorem Takes.append {c c' c'' : Cursor} {ts us : List Token} (h : Takes c ts c')
    (h' : Takes c' us c'') : Takes c (ts ++ us) c'' := by
  unfold Takes at *
  rw [h, h', List.append_assoc]

theorem Takes.drop_one {c : Cursor} {t : Token} (h : c.words.head? = some t) :
    Takes c [t] (c.drop 1) := by
  obtain ⟨rest, hrest⟩ := List.head?_eq_some_iff.1 h
  simp [Takes, hrest]

/-- Taking tokens leaves fewer. -/
theorem Takes.left_lt {c c' : Cursor} {ts : List Token} (h : Takes c ts c') (hts : ts ≠ []) :
    c'.left < c.left := by
  have := congrArg List.length h
  have := List.length_pos_iff.2 hts
  simp only [List.length_append, ← Cursor.left_eq_length] at *
  omega

namespace Parser

variable {α β σ : Type}

/-! ## Successes -/

/-- A sequence of parsers succeeds if both do, the second where the first has stopped. -/
theorem bind_eq_ok {p : Parser α} {f : α → Parser β} {c c'' : Cursor} {b : β} :
    (p >>= f) c = .ok (b, c'') ↔ ∃ a c', p c = .ok (a, c') ∧ f a c' = .ok (b, c'') := by
  simp only [bind, StateT.bind, Except.bind]
  cases h : p c with
  | error e => simp
  | ok r =>
    obtain ⟨a, c'⟩ := r
    constructor
    · exact fun hf => ⟨a, c', rfl, hf⟩
    · rintro ⟨a', c₁, heq, hf⟩
      obtain ⟨rfl, rfl⟩ : a = a' ∧ c' = c₁ := by simpa using heq
      exact hf

theorem pure_run (a : α) (c : Cursor) : (pure a : Parser α) c = .ok (a, c) := rfl

theorem pure_eq_ok {a b : α} {c c' : Cursor} :
    (pure a : Parser α) c = .ok (b, c') ↔ a = b ∧ c = c' := by
  simp [pure_run]

theorem fail_ne_ok {cause : SyntaxCause} {c : Cursor} {r : α × Cursor} :
    fail cause c ≠ .ok r := nofun

theorem failAt_ne_ok {pos : Nat} {cause : SyntaxCause} {c : Cursor} {r : α × Cursor} :
    failAt pos cause c ≠ .ok r := nofun

theorem unexpected_ne_ok {c : Cursor} {r : α × Cursor} : unexpected c ≠ .ok r := by
  unfold unexpected
  split <;> nofun

theorem offset_eq_ok {c c' : Cursor} {pos : Nat} :
    offset c = .ok (pos, c') ↔ c.offset = pos ∧ c = c' := by
  simp [offset]

theorem peek?_eq_ok {c c' : Cursor} {t : Option Token} :
    peek? c = .ok (t, c') ↔ c.words.head? = t ∧ c = c' := by
  simp [peek?, Cursor.words]

theorem peekSecond?_eq_ok {c c' : Cursor} {t : Option Token} :
    peekSecond? c = .ok (t, c') ↔ (c.words.drop 1).head? = t ∧ c = c' := by
  simp [peekSecond?, Cursor.words]

theorem skip_eq_ok {n : Nat} {c c' : Cursor} {u : Unit} :
    skip n c = .ok (u, c') ↔ c.drop n = c' := by
  simp [skip]

/-- A token is taken if it is the one that is asked for. -/
theorem eat_eq (t : Token) (c : Cursor) :
    eat t c = if c.words.head? = some t then .ok (true, c.drop 1) else .ok (false, c) := by
  obtain ⟨tokens, left, ending, h⟩ := c
  cases tokens with
  | nil => simp [eat, Cursor.words]
  | cons t' rest => simp [eat, Cursor.words]

/-- The two outcomes of asking for a token. -/
theorem eat_eq_ok {t : Token} {c c' : Cursor} {taken : Bool} :
    eat t c = .ok (taken, c') ↔
      (taken = true ∧ c.words.head? = some t ∧ c.drop 1 = c') ∨
        (taken = false ∧ c.words.head? ≠ some t ∧ c = c') := by
  rw [eat_eq]
  split <;> simp_all [eq_comm]

theorem expect_eq_ok {s : Symbol} {c c' : Cursor} {u : Unit} (h : expect s c = .ok (u, c')) :
    Takes c [.symbol s] c' := by
  obtain ⟨taken, c₁, heat, h⟩ := bind_eq_ok.1 h
  rcases eat_eq_ok.1 heat with ⟨rfl, hhead, rfl⟩ | ⟨rfl, -, rfl⟩
  · obtain ⟨-, rfl⟩ := pure_eq_ok.1 h
    exact .drop_one hhead
  · exact absurd h unexpected_ne_ok

/-- A name that was expected was taken. -/
theorem expectName_eq_ok {c c' : Cursor} {name : String} (h : expectName c = .ok (name, c')) :
    Takes c [.name name] c' := by
  obtain ⟨t, c₁, hpeek, h⟩ := bind_eq_ok.1 h
  obtain ⟨hhead, rfl⟩ := peek?_eq_ok.1 hpeek
  split at h
  · obtain ⟨u, c₂, hskip, h⟩ := bind_eq_ok.1 h
    obtain ⟨rfl, rfl⟩ := pure_eq_ok.1 h
    rw [← skip_eq_ok.1 hskip]
    exact .drop_one hhead
  · exact absurd h unexpected_ne_ok

/-- What a repetition keeps while it goes on gives, at its last step, what it ends with. -/
theorem iterate_induct {step : σ → Parser (σ × Bool)} {I Q : σ → Cursor → Prop}
    (goes : ∀ s c s' c', I s c → step s c = .ok ((s', true), c') → I s' c' ∧ c'.left < c.left)
    (stops : ∀ s c s' c', I s c → step s c = .ok ((s', false), c') → Q s' c')
    {s s' : σ} {c c' : Cursor} (hI : I s c) (h : iterate step s c = .ok (s', c')) : Q s' c' := by
  fun_induction iterate step s c with
  | case1 => simp at h
  | case2 s c s₁ more c₁ hstep hmore ih =>
    obtain ⟨rfl, -⟩ := hmore
    exact ih (goes s c s₁ c₁ hI hstep).1 h
  | case3 s c s₁ more c₁ hstep hmore =>
    obtain ⟨rfl, rfl⟩ : s₁ = s' ∧ c₁ = c' := by simpa using h
    cases more with
    | true => exact absurd ⟨rfl, (goes s c s₁ c₁ hI hstep).2⟩ hmore
    | false => exact stops s c s₁ c₁ hI hstep

/-! ## Properties of what is read -/

/-- Where the tokens ahead are as in `pre`, the tokens that `p` takes and its result are as in
`post`. -/
def Yields (pre : List Token → Prop) (p : Parser α) (post : List Token → α → Prop) : Prop :=
  ∀ c a c', pre c.words → p c = .ok (a, c') → ∃ ts, Takes c ts c' ∧ post ts a

/-- No condition on the tokens ahead. -/
def anywhere : List Token → Prop := fun _ => True

variable {pre : List Token → Prop} {post post' : List Token → β → Prop} {p : Parser β}

/-- More may be known of the tokens ahead. -/
theorem Yields.restrict {pre' : List Token → Prop} (h : Yields pre' p post)
    (hpre : ∀ ts, pre ts → pre' ts) : Yields pre p post :=
  fun c a c' hc => h c a c' (hpre _ hc)

theorem Yields.weaken (h : Yields anywhere p post) : Yields pre p post :=
  h.restrict fun _ _ => trivial

/-- Less may be said of what comes out. -/
theorem Yields.mono (h : Yields pre p post) (hpost : ∀ ts b, post ts b → post' ts b) :
    Yields pre p post' := by
  intro c b c' hpre hrun
  obtain ⟨ts, htakes, hb⟩ := h c b c' hpre hrun
  exact ⟨ts, htakes, hpost ts b hb⟩

/-- What is known of the tokens ahead is known of those that are taken. -/
theorem Yields.ahead (h : Yields pre p post) :
    Yields pre p fun ts b => (∃ rest, pre (ts ++ rest)) ∧ post ts b := by
  intro c b c' hpre hrun
  obtain ⟨ts, htakes, hb⟩ := h c b c' hpre hrun
  exact ⟨ts, htakes, ⟨c'.words, htakes ▸ hpre⟩, hb⟩

/-- Nothing is taken to give a value. -/
theorem Yields.pure {b : β} (h : post [] b) : Yields pre (pure b) post := by
  intro c b' c' _ hrun
  obtain ⟨rfl, rfl⟩ := pure_eq_ok.1 hrun
  exact ⟨[], .nil c, h⟩

/-- The tokens of two parsers stand one after the other. -/
theorem Yields.bind {q : Parser α} {f : α → Parser β} {M : List Token → α → Prop}
    (h : Yields pre q M)
    (hf : ∀ ts a, M ts a → Yields anywhere (f a) fun us b => post (ts ++ us) b) :
    Yields pre (q >>= f) post := by
  intro c b c' hpre hrun
  obtain ⟨a, c₁, hq, hrun⟩ := bind_eq_ok.1 hrun
  obtain ⟨ts, htakes, ha⟩ := h c a c₁ hpre hq
  obtain ⟨us, htakes', hb⟩ := hf ts a ha c₁ b c' trivial hrun
  exact ⟨ts ++ us, htakes.append htakes', hb⟩

/-- A parser that fails yields nothing. -/
theorem Yields.fail {cause : SyntaxCause} : Yields pre (fail cause) post :=
  fun _ _ _ _ hrun => absurd hrun fail_ne_ok

theorem Yields.fail_bind {cause : SyntaxCause} {f : α → Parser β} :
    Yields pre (Parser.fail cause >>= f) post := by
  intro c b c' _ hrun
  obtain ⟨a, c₁, hq, -⟩ := bind_eq_ok.1 hrun
  exact absurd hq fail_ne_ok

theorem Yields.failAt {pos : Nat} {cause : SyntaxCause} : Yields pre (failAt pos cause) post :=
  fun _ _ _ _ hrun => absurd hrun failAt_ne_ok

theorem Yields.failAt_bind {pos : Nat} {cause : SyntaxCause} {f : α → Parser β} :
    Yields pre (Parser.failAt pos cause >>= f) post := by
  intro c b c' _ hrun
  obtain ⟨a, c₁, hq, -⟩ := bind_eq_ok.1 hrun
  exact absurd hq failAt_ne_ok

theorem Yields.offset {f : Nat → Parser β} (h : ∀ pos, Yields pre (f pos) post) :
    Yields pre (offset >>= f) post := by
  intro c b c' hpre hrun
  obtain ⟨pos, c₁, hpos, hrun⟩ := bind_eq_ok.1 hrun
  obtain ⟨-, rfl⟩ := offset_eq_ok.1 hpos
  exact h pos c b c' hpre hrun

theorem Yields.peek? {f : Option Token → Parser β}
    (h : ∀ t, Yields (fun ts => pre ts ∧ ts.head? = t) (f t) post) :
    Yields pre (peek? >>= f) post := by
  intro c b c' hpre hrun
  obtain ⟨t, c₁, hpeek, hrun⟩ := bind_eq_ok.1 hrun
  obtain ⟨ht, rfl⟩ := peek?_eq_ok.1 hpeek
  exact h t c b c' ⟨hpre, ht⟩ hrun

theorem Yields.peekSecond? {f : Option Token → Parser β}
    (h : ∀ t, Yields (fun ts => pre ts ∧ (ts.drop 1).head? = t) (f t) post) :
    Yields pre (peekSecond? >>= f) post := by
  intro c b c' hpre hrun
  obtain ⟨t, c₁, hpeek, hrun⟩ := bind_eq_ok.1 hrun
  obtain ⟨ht, rfl⟩ := peekSecond?_eq_ok.1 hpeek
  exact h t c b c' ⟨hpre, ht⟩ hrun

/-- Tokens that are known to come are taken. -/
theorem Yields.skip {f : Unit → Parser β} (ws : List Token)
    (hpre : ∀ us, pre us → ∃ vs, us = ws ++ vs)
    (h : Yields anywhere (f ()) fun us b => post (ws ++ us) b) :
    Yields pre (skip ws.length >>= f) post := by
  intro c b c' hc hrun
  obtain ⟨u, c₁, hskip, hrun⟩ := bind_eq_ok.1 hrun
  obtain ⟨vs, hvs⟩ := hpre _ hc
  have htakes : Takes c ws c₁ := by
    rw [← skip_eq_ok.1 hskip]
    simp [Takes, hvs]
  obtain ⟨us, htakes', hb⟩ := h c₁ b c' trivial hrun
  exact ⟨ws ++ us, htakes.append htakes', hb⟩

/-- A token is asked for: it is the first of those taken, or it is known not to come. -/
theorem Yields.eat {t : Token} {f : Bool → Parser β}
    (htrue : Yields anywhere (f true) fun us b => post (t :: us) b)
    (hfalse : Yields (fun ts => pre ts ∧ ts.head? ≠ some t) (f false) post) :
    Yields pre (Parser.eat t >>= f) post := by
  intro c b c' hpre hrun
  obtain ⟨taken, c₁, heat, hrun⟩ := bind_eq_ok.1 hrun
  rcases eat_eq_ok.1 heat with ⟨rfl, hhead, rfl⟩ | ⟨rfl, hhead, rfl⟩
  · obtain ⟨us, htakes, hb⟩ := htrue _ b c' trivial hrun
    exact ⟨t :: us, (Takes.drop_one hhead).append htakes, hb⟩
  · exact hfalse c b c' ⟨hpre, hhead⟩ hrun

/-- The symbol that is expected is the first of the tokens taken. -/
theorem Yields.expect {s : Symbol} {f : Unit → Parser β}
    (h : Yields anywhere (f ()) fun us b => post (.symbol s :: us) b) :
    Yields pre (expect s >>= f) post := by
  intro c b c' _ hrun
  obtain ⟨u, c₁, hexpect, hrun⟩ := bind_eq_ok.1 hrun
  obtain ⟨us, htakes, hb⟩ := h c₁ b c' trivial hrun
  exact ⟨.symbol s :: us, (expect_eq_ok hexpect).append htakes, hb⟩

theorem Yields.expectName {f : String → Parser β}
    (h : ∀ name, Yields anywhere (f name) fun us b => post (.name name :: us) b) :
    Yields pre (expectName >>= f) post := by
  intro c b c' _ hrun
  obtain ⟨name, c₁, hexpect, hrun⟩ := bind_eq_ok.1 hrun
  obtain ⟨us, htakes, hb⟩ := h name c₁ b c' trivial hrun
  exact ⟨.name name :: us, (expectName_eq_ok hexpect).append htakes, hb⟩

/-- A loop whose steps keep `I`, a property of the tokens taken so far and the state, and take
something, and whose last step gives `post`. -/
theorem Yields.iterate {step : σ → Parser (σ × Bool)} {I post : List Token → σ → Prop} {s : σ}
    (h : I [] s)
    (hstep : ∀ ts s, I ts s → Yields anywhere (step s) fun us r =>
      if r.2 then I (ts ++ us) r.1 ∧ us ≠ [] else post (ts ++ us) r.1) :
    Yields pre (Parser.iterate step s) post := by
  intro c s' c' _ hrun
  refine iterate_induct (I := fun s c₁ => ∃ ts, Takes c ts c₁ ∧ I ts s)
    (Q := fun s c₁ => ∃ ts, Takes c ts c₁ ∧ post ts s) ?_ ?_ ⟨[], .nil c, h⟩ hrun
  · rintro s c₁ s₁ c₂ ⟨ts, htakes, hinv⟩ hrun
    obtain ⟨us, htakes', hinv', hne⟩ := hstep ts s hinv c₁ _ c₂ trivial hrun
    exact ⟨⟨ts ++ us, htakes.append htakes', hinv'⟩, htakes'.left_lt hne⟩
  · rintro s c₁ s₁ c₂ ⟨ts, htakes, hinv⟩ hrun
    obtain ⟨us, htakes', hpost⟩ := hstep ts s hinv c₁ _ c₂ trivial hrun
    exact ⟨ts ++ us, htakes.append htakes', hpost⟩

/-! ## Runs -/

/-- In front of `ts` and then `rest`, `p` takes `ts` and goes on as `q`. With `deep` it may
instead fail because it is nested too deeply. -/
def Leads (deep : Prop) (p : Parser α) (ts rest : List Token) (q : Parser α) : Prop :=
  ∀ c : Cursor, c.words = ts ++ rest →
    p c = q (c.drop ts.length) ∨ deep ∧ ∃ pos, p c = .error ⟨pos, .tooDeep⟩

variable {deep : Prop} {p q r : Parser α} {ts us rest : List Token}

/-- A parser leads to itself without a token. -/
theorem Leads.refl (p : Parser α) (rest : List Token) : Leads deep p [] rest p :=
  fun c _ => .inl (by simp)

theorem Leads.weaken {deep' : Prop} (h : Leads deep p ts rest q) (hd : deep → deep') :
    Leads deep' p ts rest q := fun c hc => (h c hc).imp_right (.imp_left hd)

theorem Leads.trans (h : Leads deep p ts (us ++ rest) q) (h' : Leads deep q us rest r) :
    Leads deep p (ts ++ us) rest r := by
  intro c hc
  rcases h c (by simpa using hc) with heq | herr
  · rw [heq, List.length_append, ← Cursor.drop_drop]
    rcases h' (c.drop ts.length) (by simp [hc]) with heq' | ⟨hd, pos, herr⟩
    · exact .inl heq'
    · exact .inr ⟨hd, pos, herr⟩
  · exact .inr herr

/-- A way and one that takes no tokens. -/
theorem Leads.trans_nil (h : Leads deep p ts rest q) (h' : Leads deep q [] rest r) :
    Leads deep p ts rest r := by
  have hnil : Leads deep p ts ([] ++ rest) q := h
  simpa using hnil.trans h'

/-- A value that is read is passed on. -/
theorem Leads.bind {p : Parser β} {f : β → Parser α} {b : β} (h : Leads deep p ts rest (pure b)) :
    Leads deep (p >>= f) ts rest (f b) := by
  intro c hc
  rcases h c hc with heq | ⟨hd, pos, herr⟩
  · exact .inl (by simp [Bind.bind, StateT.bind, Except.bind, heq, pure_run])
  · exact .inr ⟨hd, pos, by simp [Bind.bind, StateT.bind, Except.bind, herr]⟩

/-- What follows a value that is read. -/
theorem Leads.andThen {p : Parser β} {f : β → Parser α} {b : β}
    (h : Leads deep p ts (us ++ rest) (pure b)) (h' : Leads deep (f b) us rest q) :
    Leads deep (p >>= f) (ts ++ us) rest q :=
  h.bind.trans h'

/-- A step that takes `n` tokens. -/
theorem Leads.step {p : Parser β} {f : β → Parser α} {b : β} (n : Nat) (hn : n ≤ ts.length)
    (hp : ∀ c : Cursor, c.words = ts ++ rest → p c = .ok (b, c.drop n))
    (h : Leads deep (f b) (ts.drop n) rest q) : Leads deep (p >>= f) ts rest q := by
  intro c hc
  have hrun : (p >>= f) c = f b (c.drop n) := by
    simp [Bind.bind, StateT.bind, Except.bind, hp c hc]
  have hwords : (c.drop n).words = ts.drop n ++ rest := by
    rw [Cursor.words_drop, hc, List.drop_append_of_le_length hn]
  rw [hrun]
  simpa [Nat.add_sub_cancel' hn] using h (c.drop n) hwords

theorem Leads.offset {f : Nat → Parser α} (h : ∀ pos, Leads deep (f pos) ts rest q) :
    Leads deep (offset >>= f) ts rest q := by
  intro c hc
  simpa [Parser.offset, Bind.bind, StateT.bind, Except.bind] using h c.offset c hc

/-- The next token is known, so looking at it chooses the way. -/
theorem Leads.peek? {f : Option Token → Parser α}
    (h : Leads deep (f (ts ++ rest).head?) ts rest q) :
    Leads deep (peek? >>= f) ts rest q :=
  .step 0 (Nat.zero_le _) (fun c hc => by simp [Parser.peek?, ← hc, Cursor.words]) h

theorem Leads.peekSecond? {f : Option Token → Parser α}
    (h : Leads deep (f ((ts ++ rest).drop 1).head?) ts rest q) :
    Leads deep (peekSecond? >>= f) ts rest q :=
  .step 0 (Nat.zero_le _) (fun c hc => by simp [Parser.peekSecond?, ← hc, Cursor.words]) h

theorem Leads.skip {f : Unit → Parser α} (ws : List Token) (h : Leads deep (f ()) ts rest q) :
    Leads deep (skip ws.length >>= f) (ws ++ ts) rest q :=
  .step ws.length (by simp) (fun c _ => rfl) (by simpa using h)

theorem Leads.skip_one {f : Unit → Parser α} {t : Token} (h : Leads deep (f ()) ts rest q) :
    Leads deep (Parser.skip 1 >>= f) (t :: ts) rest q :=
  .skip [t] h

theorem Leads.eat {f : Bool → Parser α} {t : Token} (h : Leads deep (f true) ts rest q) :
    Leads deep (Parser.eat t >>= f) (t :: ts) rest q :=
  .step 1 (by simp) (fun c hc => by simp [eat_eq, hc]) h

theorem Leads.not_eat {f : Bool → Parser α} {t : Token} (ht : (ts ++ rest).head? ≠ some t)
    (h : Leads deep (f false) ts rest q) : Leads deep (Parser.eat t >>= f) ts rest q :=
  .step 0 (Nat.zero_le _) (fun c hc => by rw [eat_eq, hc, if_neg ht, Cursor.drop_zero]) h

theorem Leads.expect {f : Unit → Parser α} {s : Symbol} (h : Leads deep (f ()) ts rest q) :
    Leads deep (expect s >>= f) (.symbol s :: ts) rest q := by
  refine .step 1 (by simp) (fun c hc => ?_) h
  simp [Parser.expect, eatSymbol, Bind.bind, StateT.bind, Except.bind, eat_eq, hc, pure_run]

theorem Leads.expectName {f : String → Parser α} {name : String}
    (h : Leads deep (f name) ts rest q) :
    Leads deep (expectName >>= f) (.name name :: ts) rest q := by
  refine .step 1 (by simp) (fun c hc => ?_) h
  have hhead : (c.tokens.head?.map (·.token)) = some (.name name) := by
    simpa [Cursor.words] using congrArg List.head? hc
  simp [Parser.expectName, Parser.peek?, Parser.skip, Bind.bind, StateT.bind, Except.bind, hhead,
    pure_run]

/-- A repetition whose step takes something and asks for more. -/
theorem Leads.iterate {step : σ → Parser (σ × Bool)} {s s' : σ} (hts : ts ≠ [])
    (h : Leads deep (step s) ts rest (pure (s', true))) :
    Leads deep (iterate step s) ts rest (iterate step s') := by
  intro c hc
  rcases h c hc with heq | ⟨hd, pos, herr⟩
  · have htakes : Takes c ts (c.drop ts.length) := by simp [Takes, hc]
    have hlt : (c.drop ts.length).left < c.left := htakes.left_lt hts
    rw [Parser.iterate, heq]
    exact .inl (by simp [pure_run, hlt])
  · exact .inr ⟨hd, pos, by rw [Parser.iterate, herr]⟩

/-- A repetition whose step ends it. -/
theorem Leads.iterate_stop {step : σ → Parser (σ × Bool)} {s s' : σ}
    (h : Leads deep (step s) ts rest (pure (s', false))) :
    Leads deep (Parser.iterate step s) ts rest (pure s') := by
  intro c hc
  rcases h c hc with heq | ⟨hd, pos, herr⟩
  · rw [Parser.iterate, heq]
    exact .inl (by simp [pure_run])
  · exact .inr ⟨hd, pos, by rw [Parser.iterate, herr]⟩

/-! ## Loops -/

/-- One operator and its right operand, if an operator comes. -/
def joinStep (operand : Parser Expr) (join? : Token → Option (Expr → Expr → Expr)) (left : Expr) :
    Parser (Expr × Bool) := do
  match (← peek?).bind join? with
  | some join =>
    skip 1
    pure (join left (← operand), true)
  | none => pure (left, false)

theorem joined_eq (operand : Parser Expr) (join? : Token → Option (Expr → Expr → Expr)) :
    joined operand join? = operand >>= iterate (joinStep operand join?) := rfl

/-- One attribute, call or subscript, if one comes. -/
def trailStep (deeper : Nested) (e : Expr) : Parser (Expr × Bool) := do
  if ← eatSymbol .dot then pure (.attribute e (← expectName), true)
  else if ← eatSymbol .openParen then pure (.call e (← arguments deeper), true)
  else if ← eatSymbol .openBracket then pure (← subscript deeper e, true)
  else pure (e, false)

theorem primary_eq (deeper : Nested) :
    primary deeper = atom deeper >>= iterate (trailStep deeper) := rfl

/-- One link of a comparison chain, if one comes. -/
def linkStep (deeper : Nested) (links : List (Comparison × Expr)) :
    Parser (List (Comparison × Expr) × Bool) := do
  match link? (← peek?) (← peekSecond?) with
  | some (op, width) =>
    skip width
    pure ((op, ← Parser.binary deeper binaryLevels) :: links, true)
  | none => pure (links, false)

theorem comparison_eq (deeper : Nested) : Parser.comparison deeper = (do
    let first ← Parser.binary deeper binaryLevels
    let links ← iterate (linkStep deeper) []
    if links.isEmpty then pure first else pure (.compare first links.reverse)) := rfl

/-- A comma and the item after it, if one comes. -/
def itemStep (deeper : Nested) (close : Symbol) (items : List Expr) :
    Parser (List Expr × Bool) := do
  if ← eatSymbol .comma then
    if (← peek?) = some (.symbol close) then pure (items, false)
    else pure ((← deeper .expression) :: items, true)
  else pure (items, false)

theorem itemsAfter_eq (deeper : Nested) (close : Symbol) (first : Expr) :
    itemsAfter deeper close first = (do
      let items ← iterate (itemStep deeper close) [first]
      expect close
      pure items.reverse) := rfl

/-- One argument with the comma or the closing bracket after it, or the closing bracket alone. -/
def argumentStep (deeper : Nested) (s : ArgumentState) : Parser (ArgumentState × Bool) := do
  if ← eatSymbol .closeParen then pure (s, false)
  else
    let s ← argument deeper s
    if ← eatSymbol .comma then pure (s, true)
    else
      expect .closeParen
      pure (s, false)

theorem arguments_eq (deeper : Nested) : arguments deeper = (do
    let s ← iterate (argumentStep deeper) ⟨[], false, false⟩
    pure s.args.reverse) := rfl

/-- One entry with the comma or the closing brace after it, or the closing brace alone. -/
def entryStep (deeper : Nested) (entries : List (Expr × Expr)) :
    Parser (List (Expr × Expr) × Bool) := do
  if ← eatSymbol .closeBrace then pure (entries, false)
  else
    let key ← deeper .expression
    unless ← eatSymbol .colon do fail .missingColon
    let value ← deeper .expression
    if ← eatSymbol .comma then pure ((key, value) :: entries, true)
    else
      expect .closeBrace
      pure ((key, value) :: entries, false)

theorem entries_eq (deeper : Nested) : entries deeper = (do
    let entries ← iterate (entryStep deeper) []
    pure entries.reverse) := rfl

/-- One parameter with the comma or the colon after it, or the colon alone. -/
def parameterStep (deeper : Nested) (s : ParamState) : Parser (ParamState × Bool) := do
  if ← eatSymbol .colon then pure (s, false)
  else
    if s.params.kwargs.isSome then fail .parameterAfterKwargs
    let pos ← offset
    match ← parameter deeper s with
    | (none, s) => pure (s, true)
    | (some name, s) =>
      if s.seen.contains name then failAt pos (.duplicateParameter name)
      let s := { s with seen := name :: s.seen }
      if ← eatSymbol .comma then pure (s, true)
      else
        expect .colon
        pure (s, false)

/-- Parameters as a repetition of `parameterStep`, and the check that stands behind it. -/
theorem parameters_eq (deeper : Nested) : parameters deeper = (do
    let s ← iterate (parameterStep deeper) ⟨⟨[], none, [], none⟩, [], false⟩
    if s.starSeen && s.params.varargs.isNone && s.params.keywordOnly.isEmpty then
      fail .bareStarLast
    pure s.params) := rfl

end Parser

/-- Whether an argument is given by keyword. -/
def Argument.isKeyword {ε : Type} : Argument ε → Bool
  | .keyword .. => true
  | _ => false

/-- Whether an argument is given by a double star. -/
def Argument.isDoubleStar {ε : Type} : Argument ε → Bool
  | .doubleStar _ => true
  | _ => false

/-- The state of the parser after the arguments `done`. -/
def argumentState (done : List (Argument Expr)) : Parser.ArgumentState :=
  ⟨done.reverse, done.any Argument.isKeyword, done.any Argument.isDoubleStar⟩

end ExprLang
