import ExprLang.Proofs.Parsing.Grammar
import ExprLang.Proofs.Parsing.Steps

/-!
# Reading an expression of a level

Which tokens go on with an expression is a question of tightness: `continuation` ranks them, and
`Level.bound` is the rank from which on they belong to the level. `Reads level ts e` says that the
parser of the level takes the tokens `ts` for `e` in front of any that do not go on with it. The
levels that join from the left are loops, so what is said of them is that the loop comes past the
tokens with the tree in hand (`Level.onward`); `Reads.whole` ends the loop, and `Reads.within`
reads a nested part.

The rules from whole expressions down to powers follow, one for each way to derive such an
expression, under the name of the derivation rule it answers.
-/

namespace ExprLang

open ExprLang.Parser

/-! ## What goes on with an expression -/

/-- How tight a symbol binds to an expression on its left; 0 if it does not. -/
def Symbol.continuation : Symbol → Nat
  | .equal | .notEqual | .less | .lessEqual | .greater | .greaterEqual => 4
  | .pipe => 5
  | .caret => 6
  | .ampersand => 7
  | .shiftLeft | .shiftRight => 8
  | .plus | .minus => 9
  | .star | .slash | .floorDivide | .percent | .atSign => 10
  | .power => 11
  | .dot | .openParen | .openBracket => 12
  | _ => 0

/-- How tight the tokens bind to an expression on their left; 0 if they do not. -/
def continuation : List Token → Nat
  | .keyword .ifWord :: _ => 1
  | .keyword .orWord :: _ => 2
  | .keyword .andWord :: _ => 3
  | .keyword .inWord :: _ => 4
  | .keyword .isWord :: _ => 4
  | .keyword .notWord :: .keyword .inWord :: _ => 4
  | .symbol s :: _ => s.continuation
  | .str _ :: _ => 13
  | _ => 0

/-- Tokens that bind as tight as this, or tighter, go on with an expression of a level. -/
def Level.bound : Level → Nat
  | .expression | .function => 1
  | .disjunction => 2
  | .conjunction => 3
  | .negated | .comparison => 4
  | .binary n => min (5 + n) 11
  | .signed | .power => 11
  | .primary => 12
  | .atom => 13

/-- The bound of the operands that a level joins from the left, if it does. -/
def Level.inner : Level → Nat
  | .disjunction => 3
  | .conjunction => 4
  | .binary n => min (6 + n) 11
  | .primary => 13
  | level => level.bound

/-- The operators of a level continue what is on this level. -/
theorem continuation_binary {n : Nat} {s : Symbol} {op : BinaryOp} (hn : n < binaryLevels.length)
    (h : (s, op) ∈ binaryLevels[n]) (rest : List Token) :
    continuation (.symbol s :: rest) = 5 + n := by
  have table : ∀ (n : Fin 6), ∀ p ∈ binaryLevels[n], p.1.continuation = 5 + n := by decide
  exact table ⟨n, hn⟩ (s, op) h

/-- A token binds as tight as it does alone, or tighter. -/
theorem continuation_le_of_head? {t : Token} {rest : List Token} (h : rest.head? = some t) :
    continuation [t] ≤ continuation rest := by
  obtain ⟨rest, rfl⟩ := List.head?_eq_some_iff.1 h
  unfold continuation
  split <;> simp_all

/-- A token that would continue does not come if nothing that continues does. -/
theorem head?_ne_of_continuation_lt {t : Token} {rest : List Token}
    (h : continuation rest < continuation [t]) : rest.head? ≠ some t :=
  fun hhead => Nat.not_lt.2 (continuation_le_of_head? hhead) h

/-! ## Loops -/

/-- The parser of a level. That of functions takes their keyword, too. -/
def Level.parser (deeper : Nested) : Level → Parser Expr
  | .expression => Parser.expression deeper
  | .function => do skip 1; Parser.lambda deeper
  | .disjunction => Parser.disjunction deeper
  | .conjunction => Parser.conjunction deeper
  | .negated => Parser.negated deeper
  | .comparison => Parser.comparison deeper
  | .binary n => Parser.binary deeper (binaryLevels.drop n)
  | .signed => Parser.signed deeper
  | .power => Parser.power deeper
  | .primary => Parser.primary deeper
  | .atom => Parser.atom deeper

/-- What the parser of a level goes on with once it has read `e`: its loop, if it has one. -/
def Level.onward (deeper : Nested) : Level → Expr → Parser Expr
  | .disjunction => iterate (joinStep (Parser.conjunction deeper) (boolJoin? .orWord .or))
  | .conjunction => iterate (joinStep (Parser.negated deeper) (boolJoin? .andWord .and))
  | .binary n =>
    match binaryLevels[n]? with
    | some level =>
      iterate (joinStep (Parser.binary deeper (binaryLevels.drop (n + 1))) (levelJoin? level))
    | none => pure
  | .primary => iterate (trailStep deeper)
  | _ => pure

/-- With room for a level, what is nested is read by the parser of its level. -/
theorem nested_succ (room : Nat) (entry : Entry) :
    nested (room + 1) entry = entry.level.parser (nested room) := by
  cases entry <;> rfl

variable {deep : Prop} {deeper : Nested} {ts us rest : List Token} {e : Expr}

/-! ## Steps of the loops -/

/-- One round joins one more operand. -/
theorem leads_joinStep {operand : Parser Expr} {join? : Token → Option (Expr → Expr → Expr)}
    {join : Expr → Expr → Expr} {t : Token} {l r : Expr} (ht : join? t = some join)
    (h : Leads deep operand ts rest (pure r)) :
    Leads deep (joinStep operand join? l) (t :: ts) rest (pure (join l r, true)) := by
  refine .peek? ?_
  simp only [List.cons_append, List.head?_cons, Option.bind_some, ht]
  exact .skip [t] h.bind

/-- The rounds end where no operator of the level comes. -/
theorem leads_joinStep_stop {operand : Parser Expr}
    {join? : Token → Option (Expr → Expr → Expr)} (h : rest.head?.bind join? = none) :
    Leads deep (joinStep operand join? e) [] rest (pure (e, false)) := by
  refine .peek? ?_
  simp only [List.nil_append, h]
  exact .refl _ _

/-- The rounds end where no trailer comes. -/
theorem leads_trailStep_stop (h : continuation rest < 12) :
    Leads deep (trailStep deeper e) [] rest (pure (e, false)) := by
  have hdot : rest.head? ≠ some (.symbol .dot) := head?_ne_of_continuation_lt h
  have hparen : rest.head? ≠ some (.symbol .openParen) := head?_ne_of_continuation_lt h
  have hbracket : rest.head? ≠ some (.symbol .openBracket) := head?_ne_of_continuation_lt h
  exact .not_eat hdot (.not_eat hparen (.not_eat hbracket (.refl _ _)))

theorem Symbol.mem_all (s : Symbol) : s ∈ Symbol.all := by
  cases s <;> decide

/-- An operator of a level joins on it. -/
theorem levelJoin?_eq_some {n : Nat} {s : Symbol} {op : BinaryOp} (hn : n < binaryLevels.length)
    (h : (s, op) ∈ binaryLevels[n]) :
    levelJoin? binaryLevels[n] (.symbol s) = some (.binary op) := by
  have table : ∀ (n : Fin 6), ∀ p ∈ binaryLevels[n], binaryLevels[n].lookup p.1 = some p.2 := by
    decide
  have hlookup : binaryLevels[n].lookup s = some op := table ⟨n, hn⟩ (s, op) h
  simp [levelJoin?, hlookup]

/-- No operator of a level comes if nothing that continues on it does. -/
theorem levelJoin?_eq_none {n : Nat} (hn : n < binaryLevels.length)
    (h : continuation rest < 5 + n) : rest.head?.bind (levelJoin? binaryLevels[n]) = none := by
  have table : ∀ (n : Fin 6), ∀ s ∈ Symbol.all,
      binaryLevels[n].lookup s = none ∨ s.continuation = 5 + n := by decide
  cases rest with
  | nil => rfl
  | cons t rest =>
    simp only [List.head?_cons, Option.bind_some]
    unfold levelJoin?
    split
    · next s =>
      rcases table ⟨n, hn⟩ s s.mem_all with hnone | hs
      · simpa using hnone
      · simp only [continuation, hs] at h
        omega
    · rfl

/-- No `and` or `or` comes if its keyword does not. -/
theorem boolJoin?_eq_none {k : Keyword} {op : BoolOp} (h : rest.head? ≠ some (.keyword k)) :
    rest.head?.bind (boolJoin? k op) = none := by
  cases rest with
  | nil => rfl
  | cons t rest => simpa [boolJoin?] using h

/-- The loop of a level ends in front of tokens that do not go on with it. -/
theorem Level.onward_stops (level : Level) (h : continuation rest < level.bound) :
    Leads deep (level.onward deeper e) [] rest (pure e) := by
  match level with
  | .disjunction =>
    exact .iterate_stop (leads_joinStep_stop (boolJoin?_eq_none (head?_ne_of_continuation_lt h)))
  | .conjunction =>
    exact .iterate_stop (leads_joinStep_stop (boolJoin?_eq_none (head?_ne_of_continuation_lt h)))
  | .binary n =>
    by_cases hn : n < binaryLevels.length
    · simp only [onward, List.getElem?_eq_getElem hn]
      exact .iterate_stop (leads_joinStep_stop (levelJoin?_eq_none hn (Nat.lt_min.1 h).1))
    · simp only [onward, List.getElem?_eq_none (Nat.le_of_not_lt hn)]
      exact .refl _ _
  | .primary => exact .iterate_stop (leads_trailStep_stop h)
  | .expression | .function | .negated | .comparison | .signed | .power | .atom => exact .refl _ _

/-! ## Reading -/

/-- The parser of a level comes past the tokens `ts` with `e` in hand, in front of any tokens that
do not go on with an operand of the level. It fails for depth only where there is less room than
tokens. -/
def Reads (level : Level) (ts : List Token) (e : Expr) : Prop :=
  ∀ room rest, continuation rest < level.inner →
    Leads (room < ts.length) (level.parser (nested room)) ts rest (level.onward (nested room) e)

/-- What may stand behind a level may stand behind its parts. -/
theorem Level.bound_le_inner (level : Level) : level.bound ≤ level.inner := by
  cases level with
  | binary n =>
    simp only [bound, inner]
    omega
  | _ => simp [bound, inner]

/-- Past the tokens the loop of the level ends, if they are all of it. -/
theorem Reads.whole {level : Level} (h : Reads level ts e) {room : Nat}
    (hrest : continuation rest < level.bound) :
    Leads (room < ts.length) (level.parser (nested room)) ts rest (pure e) := by
  have hloop := h room rest (Nat.lt_of_lt_of_le hrest level.bound_le_inner)
  exact hloop.trans_nil (level.onward_stops hrest)

/-- An expression is read one level deeper, too, if the tokens around it are counted. -/
theorem Reads.within (entry : Entry) (h : Reads entry.level ts e) {room count : Nat}
    (hrest : continuation rest < entry.level.bound) (hcount : ts.length < count) :
    Leads (room < count) (nested room entry) ts rest (pure e) := by
  cases room with
  | zero =>
    intro c _
    exact .inr ⟨by omega, c.offset, by cases entry <;> rfl⟩
  | succ room =>
    rw [nested_succ]
    exact (h.whole hrest).weaken (by omega)

/-! ## Whole expressions and truth values -/

/-- A lambda is told by its keyword. -/
theorem Reads.ofFunction (h : Reads .function ts e) (hts : ts.head? = some (.keyword .lambdaWord)) :
    Reads .expression ts e := by
  obtain ⟨ts, rfl⟩ := List.head?_eq_some_iff.1 hts
  intro room rest hrest c hc
  have hrun : expression (nested room) c = Level.function.parser (nested room) c := by
    simp [expression, eatKeyword, Level.parser, skip, bind, StateT.bind, Except.bind, eat_eq, hc]
  simpa [Level.parser, Level.onward, hrun] using h room rest hrest c hc

/-- An expression that is no conditional. -/
theorem Reads.ofDisjunction (hd : Derives False .disjunction ts e)
    (h : Reads .disjunction ts e) : Reads .expression ts e := by
  intro room rest hrest
  have hif : rest.head? ≠ some (.keyword .ifWord) := head?_ne_of_continuation_lt hrest
  refine .not_eat (hd.head?_ne (by decide)) ?_
  have hyes : Leads (room < ts.length) (Parser.disjunction (nested room)) ts rest (pure e) :=
    h.whole (Nat.lt_of_lt_of_le hrest (by decide))
  exact hyes.bind.trans_nil (.not_eat hif (.refl _ _))

theorem Reads.conditional {ys ns : List Token} {yes test no : Expr}
    (hd : Derives False .disjunction ys yes) (hyes : Reads .disjunction ys yes)
    (htest : Reads .disjunction ts test) (hno : Reads .expression ns no) :
    Reads .expression (ys ++ .keyword .ifWord :: (ts ++ .keyword .elseWord :: ns))
      (.conditional test yes no) := by
  intro room rest hrest
  generalize hcount : List.length _ = count
  simp only [List.length_append, List.length_cons] at hcount
  have hif : continuation [.keyword .ifWord] < Level.disjunction.bound := by decide
  have helse : continuation [.keyword .elseWord] < Level.disjunction.bound := by decide
  refine .not_eat (by rw [List.append_assoc]; exact hd.head?_ne (by decide)) ?_
  refine .andThen (.weaken (hyes.whole hif) (by omega)) (.eat ?_)
  refine .andThen (.weaken (htest.whole helse) (by omega)) (.eat ?_)
  exact .bind (hno.within .expression hrest (by omega))

theorem Reads.ofConjunction (h : Reads .conjunction ts e) : Reads .disjunction ts e := by
  intro room rest hrest
  exact .bind (h.whole hrest)

theorem Reads.or {ls rs : List Token} {l r : Expr} (hl : Reads .disjunction ls l)
    (hr : Reads .conjunction rs r) :
    Reads .disjunction (ls ++ .keyword .orWord :: rs) (.bool .or l r) := by
  intro room rest hrest
  generalize hcount : List.length _ = count
  simp only [List.length_append, List.length_cons] at hcount
  have hor : continuation [.keyword .orWord] < Level.disjunction.inner := by decide
  refine .trans (.weaken (hl room _ hor) (by omega)) (.iterate (List.cons_ne_nil _ _) ?_)
  exact leads_joinStep rfl (.weaken (hr.whole hrest) (by omega))

theorem Reads.ofNegated (h : Reads .negated ts e) : Reads .conjunction ts e := by
  intro room rest hrest
  exact .bind (h.whole hrest)

theorem Reads.and {ls rs : List Token} {l r : Expr} (hl : Reads .conjunction ls l)
    (hr : Reads .negated rs r) :
    Reads .conjunction (ls ++ .keyword .andWord :: rs) (.bool .and l r) := by
  intro room rest hrest
  generalize hcount : List.length _ = count
  simp only [List.length_append, List.length_cons] at hcount
  have hand : continuation [.keyword .andWord] < Level.conjunction.inner := by decide
  refine .trans (.weaken (hl room _ hand) (by omega)) (.iterate (List.cons_ne_nil _ _) ?_)
  exact leads_joinStep rfl (.weaken (hr.whole hrest) (by omega))

/-- A negation that does not begin with `not`. -/
theorem Reads.ofComparison (hd : Derives False .comparison ts e) (h : Reads .comparison ts e) :
    Reads .negated ts e := by
  intro room rest hrest
  exact .not_eat (hd.head?_ne (by decide)) (h.whole hrest)

theorem Reads.not (h : Reads .negated ts e) :
    Reads .negated (.keyword .notWord :: ts) (.not e) := by
  intro room rest hrest
  generalize hcount : List.length _ = count
  simp only [List.length_cons] at hcount
  exact .eat (.bind (h.within .negated hrest (by omega)))

/-! ## Comparisons -/

/-- The tokens of a comparison are found ahead, because no operand begins with `not`. -/
theorem link?_tokens (link : Comparison) {us : List Token}
    (hus : us.head? ≠ some (.keyword .notWord)) :
    link? (link.tokens ++ us).head? ((link.tokens ++ us).drop 1).head?
      = some (link, link.tokens.length) := by
  cases link with
  | same =>
    simp only [Comparison.tokens, List.singleton_append, List.head?_cons, List.drop_one,
      List.tail_cons]
    unfold link?
    split <;> simp_all
  | _ => rfl

/-- No comparison is found if none comes. -/
theorem link?_eq_none (h : continuation rest < 4) :
    link? rest.head? (rest.drop 1).head? = none := by
  unfold link?
  split
  case h_8 hnot hin =>
    obtain ⟨rest, rfl⟩ := List.head?_eq_some_iff.1 hnot
    obtain ⟨rest, rfl⟩ := List.head?_eq_some_iff.1 hin
    simp [continuation] at h
  case h_11 => rfl
  all_goals
    have hle := continuation_le_of_head? ‹rest.head? = some _›
    exact absurd h (Nat.not_lt.2 hle)

theorem leads_linkStep {link : Comparison} {operand : Expr}
    {links : List (Comparison × Expr)} (hus : (ts ++ rest).head? ≠ some (.keyword .notWord))
    (h : Leads deep (Parser.binary deeper binaryLevels) ts rest (pure operand)) :
    Leads deep (linkStep deeper links) (link.tokens ++ ts) rest
      (pure ((link, operand) :: links, true)) := by
  refine .peek? (.peekSecond? ?_)
  rw [List.append_assoc, link?_tokens link hus]
  exact .skip link.tokens (.bind h)

theorem leads_linkStep_stop {links : List (Comparison × Expr)} (h : continuation rest < 4) :
    Leads deep (linkStep deeper links) [] rest (pure (links, false)) := by
  refine .peek? (.peekSecond? ?_)
  rw [List.nil_append, link?_eq_none h]
  exact .refl _ _

/-- Behind an operand of a chain comes a link or what follows the chain. -/
theorem head?_linkTokens (links : List (Comparison × Phrase)) (hrest : continuation rest < 4) :
    continuation (linkTokens links ++ rest) < 5 := by
  cases links with
  | nil => exact Nat.lt_succ_of_lt hrest
  | cons link links =>
    have hlink : ∀ us, continuation (link.1.tokens ++ us) = 4 := by
      cases link.1 <;> exact fun us => rfl
    simp [linkTokens, hlink]

/-- The links of a chain, read after those in `done`. -/
theorem leads_links {room count : Nat} {links : List (Comparison × Phrase)}
    (hd : ∀ l ∈ links, Derives False (.binary 0) l.2.tokens l.2.tree)
    (h : ∀ l ∈ links, Reads (.binary 0) l.2.tokens l.2.tree)
    (hcount : (linkTokens links).length ≤ count) (hrest : continuation rest < 4)
    (done : List (Comparison × Expr)) :
    Leads (room < count) (iterate (linkStep (nested room)) done) (linkTokens links) rest
      (pure ((links.map fun l => (l.1, l.2.tree)).reverse ++ done)) := by
  induction links generalizing done with
  | nil => exact .iterate_stop (leads_linkStep_stop hrest)
  | cons link links ih =>
    obtain ⟨t, us, heq, -⟩ := link.1.tokens_eq_cons
    have hcons : linkTokens (link :: links)
        = link.1.tokens ++ link.2.tokens ++ linkTokens links := by simp [linkTokens]
    rw [hcons] at hcount ⊢
    simp only [List.length_append] at hcount
    have hoperand : Leads (room < count) (Parser.binary (nested room) binaryLevels) link.2.tokens
        (linkTokens links ++ rest) (pure link.2.tree) :=
      .weaken ((h link (by simp)).whole (head?_linkTokens links hrest)) (by omega)
    have hnot : (link.2.tokens ++ (linkTokens links ++ rest)).head? ≠ some (.keyword .notWord) :=
      (hd link (by simp)).head?_ne (by decide)
    refine .trans (.iterate (by simp [heq]) (leads_linkStep hnot hoperand)) ?_
    simpa using ih (fun l hl => hd l (by simp [hl])) (fun l hl => h l (by simp [hl])) (by omega)
      ((link.1, link.2.tree) :: done)

theorem Reads.ofBinary (h : Reads (.binary 0) ts e) : Reads .comparison ts e := by
  intro room rest hrest
  have hlinks : Leads (room < ts.length) (iterate (linkStep (nested room)) []) [] rest (pure []) :=
    .iterate_stop (leads_linkStep_stop hrest)
  exact .trans_nil (.bind (h.whole (Nat.lt_succ_of_lt hrest))) (.bind hlinks)

theorem Reads.compare {first : Expr} {links : List (Comparison × Phrase)}
    (h : Reads (.binary 0) ts first) (hne : links ≠ [])
    (hds : ∀ l ∈ links, Derives False (.binary 0) l.2.tokens l.2.tree)
    (hs : ∀ l ∈ links, Reads (.binary 0) l.2.tokens l.2.tree) :
    Reads .comparison (ts ++ linkTokens links)
      (.compare first (links.map fun l => (l.1, l.2.tree))) := by
  intro room rest hrest
  generalize hcount : List.length _ = count
  simp only [List.length_append] at hcount
  refine .trans (.bind (.weaken (h.whole (head?_linkTokens links hrest)) (by omega))) ?_
  refine .trans_nil (.bind (leads_links hds hs (by omega) hrest [])) ?_
  simpa [hne, Level.onward] using Leads.refl _ _

/-! ## Operators -/

/-- The parser of a level joins what the parser of the next level reads. -/
theorem binary_drop (deeper : Nested) {n : Nat} (hn : n < binaryLevels.length) :
    Parser.binary deeper (binaryLevels.drop n)
      = joined (Parser.binary deeper (binaryLevels.drop (n + 1))) (levelJoin? binaryLevels[n]) := by
  rw [List.drop_eq_getElem_cons hn]
  rfl

/-- What is on a tighter level is on this one. -/
theorem Reads.tighter {n : Nat} (hn : n < binaryLevels.length) (h : Reads (.binary (n + 1)) ts e) :
    Reads (.binary n) ts e := by
  intro room rest hrest
  simp only [Level.parser, Level.onward, binary_drop _ hn, List.getElem?_eq_getElem hn]
  have hlt : continuation rest < Level.bound (.binary (n + 1)) := by
    simp only [Level.inner, Level.bound] at hrest ⊢
    omega
  exact .bind (h.whole hlt)

theorem Reads.binary {n : Nat} {ls rs : List Token} {s : Symbol} {op : BinaryOp} {l r : Expr}
    (hn : n < binaryLevels.length) (hs : (s, op) ∈ binaryLevels[n]) (hl : Reads (.binary n) ls l)
    (hr : Reads (.binary (n + 1)) rs r) :
    Reads (.binary n) (ls ++ .symbol s :: rs) (.binary op l r) := by
  intro room rest hrest
  generalize hcount : List.length _ = count
  simp only [List.length_append, List.length_cons] at hcount
  have hsix : n < 6 := hn
  have hop : continuation (.symbol s :: rs ++ rest) < Level.inner (.binary n) := by
    rw [List.cons_append, continuation_binary hn hs, Level.inner]
    omega
  have hlt : continuation rest < Level.bound (.binary (n + 1)) := by
    simp only [Level.inner, Level.bound] at hrest ⊢
    omega
  refine .trans (.weaken (hl room _ hop) (by omega)) ?_
  simp only [Level.onward, List.getElem?_eq_getElem hn]
  refine .iterate (List.cons_ne_nil _ _) ?_
  exact leads_joinStep (levelJoin?_eq_some hn hs) (.weaken (hr.whole hlt) (by omega))

/-- The tightest level is that of the signed operands. -/
theorem Reads.ofSigned (h : Reads .signed ts e) : Reads (.binary binaryLevels.length) ts e := by
  intro room rest hrest
  exact h.whole hrest

theorem sign?_eq_none {t : Token} (h : 4 ≤ t.opening) : sign? t = none := by
  unfold sign?
  split <;> simp_all [Token.opening]

theorem Reads.ofPower (hd : Derives False .power ts e) (h : Reads .power ts e) :
    Reads .signed ts e := by
  obtain ⟨t, us, rfl, ht⟩ := hd.starts
  intro room rest hrest
  refine .peek? ?_
  rw [List.cons_append, List.head?_cons, Option.bind_some, sign?_eq_none ht]
  exact h.whole hrest

theorem Reads.sign {op : UnaryOp} (h : Reads .signed ts e) :
    Reads .signed (.symbol op.symbol :: ts) (.unary op e) := by
  intro room rest hrest
  generalize hcount : List.length _ = count
  simp only [List.length_cons] at hcount
  have hop : sign? (.symbol op.symbol) = some op := by cases op <;> rfl
  refine .peek? ?_
  rw [List.cons_append, List.head?_cons, Option.bind_some, hop]
  exact .skip [_] (.bind (h.within .signed hrest (by omega)))

theorem Reads.ofPrimary (h : Reads .primary ts e) : Reads .power ts e := by
  intro room rest hrest
  have hpower : rest.head? ≠ some (.symbol .power) := head?_ne_of_continuation_lt hrest
  exact .trans_nil (.bind (h.whole (Nat.lt_succ_of_lt hrest))) (.not_eat hpower (.refl _ _))

theorem Reads.power {bs es : List Token} {base exponent : Expr} (hb : Reads .primary bs base)
    (he : Reads .signed es exponent) :
    Reads .power (bs ++ .symbol .power :: es) (.binary .pow base exponent) := by
  intro room rest hrest
  generalize hcount : List.length _ = count
  simp only [List.length_append, List.length_cons] at hcount
  have hpower : continuation [.symbol .power] < Level.primary.bound := by decide
  refine .andThen (.weaken (hb.whole hpower) (by omega)) (.eat ?_)
  exact .bind (he.within .signed hrest (by omega))

end ExprLang
