import ExprLang.Expr.Parser

/-!
# The grammar of expressions

`Derives bare level ts e` says that the tokens `ts`, all of them, are an expression of the given
level whose tree is `e`. The levels go from whole expressions down to atoms; each has a rule that
passes to the next tighter one, and operators join from the left by left recursion. A function
is a whole expression; with `bare` it may also stand as an atom without brackets, and then its
body may end in more than one place.

Lists with commas are told apart from what stands in them: `Separated` says where commas may
stand, a `Phrase` is an expression of the list with its tokens, and `ArgumentsOrdered` and
`Params.Valid` say in which order arguments and parameters may come.

An expression of a level is one of every looser level (`Derives.expression_of_primary`), and any
operator joins a primary and what may have a sign (`Derives.operation`). `Derives.starts` and
`Derives.not_beginsKeyword` say what an expression begins with, and `Derives.of_bare` that without
the word `lambda` nothing depends on `bare`.
-/

namespace ExprLang

open ExprLang.Parser

/-! ## Phrases and commas -/

/-- The tokens of an expression, and its tree. -/
structure Phrase where
  tokens : List Token
  tree : Expr

/-- The tokens of items with a comma between them, and perhaps one after the last. -/
inductive Separated : List (List Token) → List Token → Prop
  | none : Separated [] []
  | last (ts : List Token) : Separated [ts] ts
  | comma (ts : List Token) {items : List (List Token)} {rest : List Token} :
    Separated items rest → Separated (ts :: items) (ts ++ .symbol .comma :: rest)

/-- The tokens of each item are among all. -/
theorem Separated.subset {items : List (List Token)} {ts : List Token}
    (h : Separated items ts) : ∀ item ∈ items, ∀ t ∈ item, t ∈ ts := by
  induction h with
  | none => simp
  | last ts => simp
  | comma ts _ ih =>
    intro item hitem t ht
    rcases List.mem_cons.1 hitem with rfl | hitem
    · simp [ht]
    · simp [ih item hitem t ht]

/-- No item is longer than all. -/
theorem Separated.length_le {items : List (List Token)} {ts : List Token}
    (h : Separated items ts) : ∀ item ∈ items, item.length ≤ ts.length := by
  induction h with
  | none => simp
  | last ts => simp
  | comma ts _ ih =>
    intro item hitem
    simp only [List.length_append, List.length_cons]
    rcases List.mem_cons.1 hitem with rfl | hitem
    · omega
    · have := ih item hitem
      omega

/-! ## Arguments -/

/-- What an argument hands over. -/
def Argument.value {ε : Type} : Argument ε → ε
  | .positional e => e
  | .star e => e
  | .keyword _ e => e
  | .doubleStar e => e

/-- An argument with another value. -/
def Argument.map {ε δ : Type} (f : ε → δ) : Argument ε → Argument δ
  | .positional e => .positional (f e)
  | .star e => .star (f e)
  | .keyword name e => .keyword name (f e)
  | .doubleStar e => .doubleStar (f e)

/-- The tokens of an argument. -/
def Argument.tokens : Argument Phrase → List Token
  | .positional p => p.tokens
  | .star p => .symbol .star :: p.tokens
  | .keyword name p => .name name :: .symbol .assign :: p.tokens
  | .doubleStar p => .symbol .power :: p.tokens

/-- The tokens of an argument's value are among its own. -/
theorem Argument.value_tokens_subset {a : Argument Phrase} {t : Token}
    (h : t ∈ a.value.tokens) : t ∈ a.tokens := by
  cases a <;> simp_all [Argument.tokens, Argument.value]

theorem Argument.length_value_tokens_le (a : Argument Phrase) :
    a.value.tokens.length ≤ a.tokens.length := by
  cases a <;> simp [Argument.tokens, Argument.value]
  omega

/-- Whether an argument may come anywhere before another: nothing positional follows a keyword
or a double star, and no star a double star. -/
def Argument.mayPrecede {ε : Type} : Argument ε → Argument ε → Prop
  | .keyword _ _, .positional _ => False
  | .doubleStar _, .positional _ => False
  | .doubleStar _, .star _ => False
  | _, _ => True

/-- Whether the arguments of a call come in an order that is allowed. -/
def ArgumentsOrdered {ε : Type} (args : List (Argument ε)) : Prop :=
  args.Pairwise Argument.mayPrecede

/-! ## Parameters -/

/-- A parameter with another default. -/
def Param.map {ε δ : Type} (f : ε → δ) (p : Param ε) : Param δ :=
  ⟨p.name, p.default.map f⟩

/-- Parameters with other defaults. -/
def Params.map {ε δ : Type} (f : ε → δ) (ps : Params ε) : Params δ :=
  ⟨ps.positional.map (Param.map f), ps.varargs, ps.keywordOnly.map (Param.map f), ps.kwargs⟩

/-- The defaults of parameters, in the order of their declaration. -/
def Params.defaults {ε : Type} (ps : Params ε) : List ε :=
  (ps.positional ++ ps.keywordOnly).filterMap (·.default)

/-- The declared names, without stars. -/
def Params.declared {ε : Type} (ps : Params ε) : List String :=
  ps.positional.map (·.name) ++ ps.varargs.toList ++ ps.keywordOnly.map (·.name)
    ++ ps.kwargs.toList

/-- Whether parameters may stand together: no name is declared twice, and no positional
parameter without a default comes after one that has one. -/
structure Params.Valid {ε : Type} (ps : Params ε) : Prop where
  distinct : ps.declared.Nodup
  ordered : ps.positional.Pairwise fun p q => p.default.isSome → q.default.isSome

/-- The tokens of a named parameter. -/
def Param.tokens (p : Param Phrase) : List Token :=
  .name p.name :: (p.default.map fun d => .symbol .assign :: d.tokens).getD []

/-- The star among parameters: that of `*name`, or a bare one before parameters that are given
by keyword only. -/
def Params.starTokens (ps : Params Phrase) : List (List Token) :=
  match ps.varargs with
  | some name => [[.symbol .star, .name name]]
  | none => if ps.keywordOnly.isEmpty then [] else [[.symbol .star]]

/-- The tokens of each parameter. -/
def Params.tokens (ps : Params Phrase) : List (List Token) :=
  ps.positional.map Param.tokens ++ ps.starTokens ++ ps.keywordOnly.map Param.tokens
    ++ (ps.kwargs.map fun name => [.symbol .power, .name name]).toList

/-- A default stands in the tokens of its parameter. -/
theorem Params.tokens_of_default {ps : Params Phrase} {d : Phrase} (h : d ∈ ps.defaults) :
    ∃ p : Param Phrase, p.default = some d ∧ p.tokens ∈ ps.tokens := by
  obtain ⟨p, hp, hd⟩ := List.mem_filterMap.1 h
  refine ⟨p, hd, ?_⟩
  rcases List.mem_append.1 hp with hp | hp
  · simp [Params.tokens, List.mem_map_of_mem hp]
  · simp [Params.tokens, List.mem_map_of_mem hp]

/-- No default is longer than the parameters. -/
theorem Params.length_default_le {ps : Params Phrase} {d : Phrase} {ts : List Token}
    (hs : Separated ps.tokens ts) (h : d ∈ ps.defaults) : d.tokens.length ≤ ts.length := by
  obtain ⟨p, hd, hp⟩ := ps.tokens_of_default h
  have := hs.length_le _ hp
  simp only [Param.tokens, hd, Option.map_some, Option.getD_some, List.length_cons] at this
  omega

/-! ## Operators and literals -/

/-- The symbol of an operator with one operand. -/
def UnaryOp.symbol : UnaryOp → Symbol
  | .pos => .plus
  | .neg => .minus
  | .invert => .tilde

/-- The symbol of an operator with two operands. -/
def BinaryOp.symbol : BinaryOp → Symbol
  | .add => .plus
  | .sub => .minus
  | .mul => .star
  | .div => .slash
  | .floorDiv => .floorDivide
  | .mod => .percent
  | .pow => .power
  | .matmul => .atSign
  | .shiftLeft => .shiftLeft
  | .shiftRight => .shiftRight
  | .bitAnd => .ampersand
  | .bitOr => .pipe
  | .bitXor => .caret

/-- The tokens of a link of a comparison chain. -/
def Comparison.tokens : Comparison → List Token
  | .equal => [.symbol .equal]
  | .notEqual => [.symbol .notEqual]
  | .less => [.symbol .less]
  | .lessEqual => [.symbol .lessEqual]
  | .greater => [.symbol .greater]
  | .greaterEqual => [.symbol .greaterEqual]
  | .isIn => [.keyword .inWord]
  | .notIn => [.keyword .notWord, .keyword .inWord]
  | .same => [.keyword .isWord]
  | .notSame => [.keyword .isWord, .keyword .notWord]

/-- The tokens of the links of a chain, each with its operand. -/
def linkTokens (links : List (Comparison × Phrase)) : List Token :=
  links.flatMap fun l => l.1.tokens ++ l.2.tokens

/-- The literal that a token is, if it is one and its value is in range. -/
def Token.literal? : Token → Option Literal
  | .keyword .noneWord => some .none
  | .keyword .trueWord => some (.bool true)
  | .keyword .falseWord => some (.bool false)
  | .int text => (integerValue text).toOption.map .int
  | .float text => (floatValue text).toOption.map .float
  | .imaginary text => (floatValue text).toOption.map .imaginary
  | _ => none

/-- The tokens of a part of a slice. -/
def partTokens (part : Option Phrase) : List Token :=
  (part.map Phrase.tokens).getD []

/-- The tokens of the step of a slice with the colon before it, which may stand alone. -/
def stepTokens (step : Option (Option Phrase)) : List Token :=
  (step.map fun part => .symbol .colon :: partTokens part).getD []

/-- The tokens of an entry of a dict display. -/
def entryTokens (p : Phrase × Phrase) : List Token :=
  p.1.tokens ++ .symbol .colon :: p.2.tokens

/-! ## Derivations -/

/-- The levels of expressions, loosest first. Those of binary operators are counted from the
loosest. -/
inductive Level where
  | expression
  | function
  | disjunction
  | conjunction
  | negated
  | comparison
  | binary (n : Nat)
  | signed
  | power
  | primary
  | atom
  deriving DecidableEq

/-- The level at which a nested part starts. -/
def Parser.Entry.level : Entry → Level
  | .expression => .expression
  | .negated => .negated
  | .signed => .signed

/-- The tokens of an expression of a level, and its tree. With `bare`, a function may stand as an
atom. -/
inductive Derives (bare : Prop) : Level → List Token → Expr → Prop
  -- whole expressions
  | ofFunction {ts : List Token} {e : Expr} :
    Derives bare .function ts e → Derives bare .expression ts e
  | ofDisjunction {ts : List Token} {e : Expr} :
    Derives bare .disjunction ts e → Derives bare .expression ts e
  | conditional {ys ts ns : List Token} {yes test no : Expr} :
    Derives bare .disjunction ys yes → Derives bare .disjunction ts test →
    Derives bare .expression ns no →
    Derives bare .expression
      (ys ++ .keyword .ifWord :: (ts ++ .keyword .elseWord :: ns)) (.conditional test yes no)
  | function {ps : Params Phrase} {ts bs : List Token} {body : Expr} :
    (∀ p ∈ ps.defaults, Derives bare .expression p.tokens p.tree) → ps.Valid →
    Separated ps.tokens ts → Derives bare .expression bs body →
    Derives bare .function (.keyword .lambdaWord :: (ts ++ .symbol .colon :: bs))
      (.lambda (ps.map Phrase.tree) body)
  -- truth values
  | ofConjunction {ts : List Token} {e : Expr} :
    Derives bare .conjunction ts e → Derives bare .disjunction ts e
  | or {ls rs : List Token} {l r : Expr} :
    Derives bare .disjunction ls l → Derives bare .conjunction rs r →
    Derives bare .disjunction (ls ++ .keyword .orWord :: rs) (.bool .or l r)
  | ofNegated {ts : List Token} {e : Expr} :
    Derives bare .negated ts e → Derives bare .conjunction ts e
  | and {ls rs : List Token} {l r : Expr} :
    Derives bare .conjunction ls l → Derives bare .negated rs r →
    Derives bare .conjunction (ls ++ .keyword .andWord :: rs) (.bool .and l r)
  | ofComparison {ts : List Token} {e : Expr} :
    Derives bare .comparison ts e → Derives bare .negated ts e
  | not {ts : List Token} {e : Expr} :
    Derives bare .negated ts e → Derives bare .negated (.keyword .notWord :: ts) (.not e)
  -- comparisons
  | ofBinary {ts : List Token} {e : Expr} :
    Derives bare (.binary 0) ts e → Derives bare .comparison ts e
  | compare {ts : List Token} {first : Expr} {links : List (Comparison × Phrase)} :
    Derives bare (.binary 0) ts first → links ≠ [] →
    (∀ l ∈ links, Derives bare (.binary 0) l.2.tokens l.2.tree) →
    Derives bare .comparison (ts ++ linkTokens links)
      (.compare first (links.map fun l => (l.1, l.2.tree)))
  -- operators
  | tighter {n : Nat} {ts : List Token} {e : Expr} : n < binaryLevels.length →
    Derives bare (.binary (n + 1)) ts e → Derives bare (.binary n) ts e
  | binary {n : Nat} {ls rs : List Token} {s : Symbol} {op : BinaryOp} {l r : Expr}
    (hn : n < binaryLevels.length) : (s, op) ∈ binaryLevels[n] →
    Derives bare (.binary n) ls l → Derives bare (.binary (n + 1)) rs r →
    Derives bare (.binary n) (ls ++ .symbol s :: rs) (.binary op l r)
  | ofSigned {ts : List Token} {e : Expr} :
    Derives bare .signed ts e → Derives bare (.binary binaryLevels.length) ts e
  | ofPower {ts : List Token} {e : Expr} :
    Derives bare .power ts e → Derives bare .signed ts e
  | sign {op : UnaryOp} {ts : List Token} {e : Expr} :
    Derives bare .signed ts e → Derives bare .signed (.symbol op.symbol :: ts) (.unary op e)
  | ofPrimary {ts : List Token} {e : Expr} :
    Derives bare .primary ts e → Derives bare .power ts e
  | power {bs es : List Token} {base exponent : Expr} :
    Derives bare .primary bs base → Derives bare .signed es exponent →
    Derives bare .power (bs ++ .symbol .power :: es) (.binary .pow base exponent)
  -- trailers
  | ofAtom {ts : List Token} {e : Expr} : Derives bare .atom ts e → Derives bare .primary ts e
  | dot {ts : List Token} {target : Expr} {name : String} :
    Derives bare .primary ts target →
    Derives bare .primary (ts ++ [.symbol .dot, .name name]) (.attribute target name)
  | call {ts as : List Token} {callee : Expr} {args : List (Argument Phrase)} :
    Derives bare .primary ts callee →
    (∀ a ∈ args, Derives bare .expression a.value.tokens a.value.tree) → ArgumentsOrdered args →
    Separated (args.map Argument.tokens) as →
    Derives bare .primary (ts ++ .symbol .openParen :: (as ++ [.symbol .closeParen]))
      (.call callee (args.map (Argument.map Phrase.tree)))
  | item {ts is : List Token} {target index : Expr} :
    Derives bare .primary ts target → Derives bare .expression is index →
    Derives bare .primary (ts ++ .symbol .openBracket :: (is ++ [.symbol .closeBracket]))
      (.item target index)
  | itemTuple {ts is : List Token} {target : Expr} {first : Phrase} {items : List Phrase} :
    Derives bare .primary ts target →
    (∀ p ∈ first :: items, Derives bare .expression p.tokens p.tree) →
    Separated (items.map Phrase.tokens) is →
    Derives bare .primary
      (ts ++ .symbol .openBracket ::
        (first.tokens ++ .symbol .comma :: (is ++ [.symbol .closeBracket])))
      (.item target (.tuple ((first :: items).map Phrase.tree)))
  | slice {ts : List Token} {target : Expr} {lower upper : Option Phrase}
    {step : Option (Option Phrase)} :
    Derives bare .primary ts target →
    (∀ p ∈ lower, Derives bare .expression p.tokens p.tree) →
    (∀ p ∈ upper, Derives bare .expression p.tokens p.tree) →
    (∀ p ∈ step.join, Derives bare .expression p.tokens p.tree) →
    Derives bare .primary
      (ts ++ .symbol .openBracket :: (partTokens lower ++ .symbol .colon ::
        (partTokens upper ++ (stepTokens step ++ [.symbol .closeBracket]))))
      (.slice target (lower.map Phrase.tree) (upper.map Phrase.tree) (step.join.map Phrase.tree))
  -- atoms
  | name {text : String} : Derives bare .atom [.name text] (.var text)
  | literal {t : Token} {value : Literal} : t.literal? = some value →
    Derives bare .atom [t] (.literal value)
  | strings {value : String} {values : List String} :
    Derives bare .atom ((value :: values).map .str)
      (.literal (.str (String.join (value :: values))))
  | bareFunction {ts : List Token} {e : Expr} : bare →
    Derives bare .function ts e → Derives bare .atom ts e
  | brackets {ts : List Token} {e : Expr} : Derives bare .expression ts e →
    Derives bare .atom (.symbol .openParen :: (ts ++ [.symbol .closeParen])) e
  | unit : Derives bare .atom [.symbol .openParen, .symbol .closeParen] (.tuple [])
  | tuple {ts : List Token} {first : Phrase} {items : List Phrase} :
    (∀ p ∈ first :: items, Derives bare .expression p.tokens p.tree) →
    Separated (items.map Phrase.tokens) ts →
    Derives bare .atom
      (.symbol .openParen :: (first.tokens ++ .symbol .comma :: (ts ++ [.symbol .closeParen])))
      (.tuple ((first :: items).map Phrase.tree))
  | list {ts : List Token} {items : List Phrase} :
    (∀ p ∈ items, Derives bare .expression p.tokens p.tree) →
    Separated (items.map Phrase.tokens) ts →
    Derives bare .atom (.symbol .openBracket :: (ts ++ [.symbol .closeBracket]))
      (.list (items.map Phrase.tree))
  | dict {ts : List Token} {entries : List (Phrase × Phrase)} :
    (∀ p ∈ entries, Derives bare .expression p.1.tokens p.1.tree) →
    (∀ p ∈ entries, Derives bare .expression p.2.tokens p.2.tree) →
    Separated (entries.map entryTokens) ts →
    Derives bare .atom (.symbol .openBrace :: (ts ++ [.symbol .closeBrace]))
      (.dict (entries.map fun p => (p.1.tree, p.2.tree)))

/-! ## Looser levels -/

/-- A primary is a signed operand. -/
theorem Derives.signed_of_primary {bare : Prop} {ts : List Token} {e : Expr}
    (h : Derives bare .primary ts e) : Derives bare .signed ts e :=
  .ofPower (.ofPrimary h)

/-- A signed operand is on every level of binary operators. -/
theorem Derives.binary_of_signed {bare : Prop} {ts : List Token} {e : Expr} {n : Nat}
    (hn : n ≤ binaryLevels.length) (h : Derives bare .signed ts e) :
    Derives bare (.binary n) ts e := by
  obtain ⟨k, hk⟩ := Nat.exists_eq_add_of_le hn
  induction k generalizing n with
  | zero =>
    obtain rfl : n = binaryLevels.length := by omega
    exact .ofSigned h
  | succ k ih => exact .tighter (by omega) (ih (by omega) (by omega))

theorem Derives.comparison_of_signed {bare : Prop} {ts : List Token} {e : Expr}
    (h : Derives bare .signed ts e) : Derives bare .comparison ts e :=
  .ofBinary (h.binary_of_signed (Nat.zero_le _))

theorem Derives.conjunction_of_signed {bare : Prop} {ts : List Token} {e : Expr}
    (h : Derives bare .signed ts e) : Derives bare .conjunction ts e :=
  .ofNegated (.ofComparison h.comparison_of_signed)

theorem Derives.expression_of_negated {bare : Prop} {ts : List Token} {e : Expr}
    (h : Derives bare .negated ts e) : Derives bare .expression ts e :=
  .ofDisjunction (.ofConjunction (.ofNegated h))

theorem Derives.expression_of_primary {bare : Prop} {ts : List Token} {e : Expr}
    (h : Derives bare .primary ts e) : Derives bare .expression ts e :=
  .expression_of_negated (.ofComparison h.signed_of_primary.comparison_of_signed)

/-- A numeral in range is an expression of its own. -/
theorem Derives.integer {bare : Prop} {text : String} {n : Int64} (h : integerValue text = .ok n) :
    Derives bare .expression [.int text] (.literal (.int n)) := by
  refine .expression_of_primary (.ofAtom (.literal ?_))
  simp only [Token.literal?, h]
  rfl

/-- Every operator but the power has its level. -/
theorem BinaryOp.mem_binaryLevels (op : BinaryOp) (h : op ≠ .pow) :
    ∃ n, ∃ hn : n < binaryLevels.length, (op.symbol, op) ∈ binaryLevels[n] := by
  have hmem : (op.symbol, op) ∈ binaryLevels.flatten := by
    cases op with
    | pow => exact absurd rfl h
    | _ => decide
  obtain ⟨level, hlevel, hop⟩ := List.mem_flatten.1 hmem
  obtain ⟨n, hn, rfl⟩ := List.getElem_of_mem hlevel
  exact ⟨n, hn, hop⟩

/-- Whatever the operator is, a primary may stand before it and a sign after it. -/
theorem Derives.operation {bare : Prop} {ls rs : List Token} {l r : Expr} (op : BinaryOp)
    (hl : Derives bare .primary ls l) (hr : Derives bare .signed rs r) :
    Derives bare (.binary 0) (ls ++ .symbol op.symbol :: rs) (.binary op l r) := by
  by_cases hop : op = .pow
  · subst hop
    exact .binary_of_signed (Nat.zero_le _) (.ofPower (.power hl hr))
  · obtain ⟨n, hn, hmem⟩ := op.mem_binaryLevels hop
    have hbinary : Derives bare (.binary n) (ls ++ .symbol op.symbol :: rs) (.binary op l r) :=
      .binary hn hmem (hl.signed_of_primary.binary_of_signed (Nat.le_of_lt hn))
        (hr.binary_of_signed hn)
    clear hmem
    induction n with
    | zero => exact hbinary
    | succ n ih => exact ih (by omega) (.tighter (by omega) hbinary)

/-! ## How expressions begin -/

/-- How tight an expression a token may begin: a function, a negation, a sign, or a power. The
tokens at 0 begin none. -/
def Token.opening : Token → Nat
  | .keyword .lambdaWord => 1
  | .keyword .notWord => 2
  | .symbol .plus | .symbol .minus | .symbol .tilde => 3
  | .keyword .trueWord | .keyword .falseWord | .keyword .noneWord => 4
  | .name _ | .int _ | .float _ | .imaginary _ | .str _ => 4
  | .symbol .openParen | .symbol .openBracket | .symbol .openBrace => 4
  | _ => 0

/-- What the first token of an expression of a level reaches at least. -/
def Level.opening : Level → Nat
  | .expression | .function => 1
  | .disjunction | .conjunction | .negated => 2
  | .comparison | .binary _ | .signed => 3
  | .power | .primary | .atom => 4

theorem Token.opening_of_literal? {t : Token} {v : Literal} (h : t.literal? = some v) :
    t.opening = 4 := by
  unfold Token.literal? at h
  split at h <;> simp_all [Token.opening]

/-- An expression is not empty, and its first token begins one. Where no function stands bare, the
token fits the level. -/
theorem Derives.begins {bare : Prop} {level : Level} {ts : List Token} {e : Expr}
    (h : Derives bare level ts e) :
    ∃ t rest, ts = t :: rest ∧ 0 < t.opening ∧ (¬bare → level.opening ≤ t.opening) := by
  induction h with
  | ofFunction _ ih | ofAtom _ ih | ofPrimary _ ih | ofSigned _ ih | tighter _ _ ih
  | ofNegated _ ih | ofConjunction _ ih => exact ih
  | ofDisjunction _ ih | ofComparison _ ih | ofPower _ ih | ofBinary _ ih =>
    obtain ⟨t, rest, rfl, hpos, ht⟩ := ih
    exact ⟨t, rest, rfl, hpos, fun hb => by
      have := ht hb
      simp only [Level.opening] at this ⊢
      omega⟩
  | conditional _ _ _ ih | or _ _ ih | and _ _ ih | compare _ _ _ ih
  | binary _ _ _ _ ih | power _ _ ih | dot _ ih | call _ _ _ _ ih | item _ _ ih
  | itemTuple _ _ _ ih | slice _ _ _ _ ih =>
    obtain ⟨t, rest, rfl, hpos, ht⟩ := ih
    exact ⟨t, _, rfl, hpos, fun hb => by
      have := ht hb
      simp only [Level.opening] at this ⊢
      omega⟩
  | bareFunction h _ ih =>
    obtain ⟨t, rest, rfl, hpos, -⟩ := ih
    exact ⟨t, rest, rfl, hpos, fun hb => absurd h hb⟩
  | @sign op => exact ⟨_, _, rfl, by cases op <;> decide, fun _ => by cases op <;> decide⟩
  | literal h =>
    have hopening := Token.opening_of_literal? h
    exact ⟨_, _, rfl, by omega, fun _ => Nat.le_of_eq hopening.symm⟩
  | name | strings => exact ⟨_, _, rfl, Nat.succ_pos 3, fun _ => Nat.le_refl _⟩
  | _ => exact ⟨_, _, rfl, by decide, fun _ => by decide⟩

/-- What is derived on a level opens it. -/
theorem Derives.starts {level : Level} {ts : List Token} {e : Expr}
    (h : Derives False level ts e) :
    ∃ t rest, ts = t :: rest ∧ level.opening ≤ t.opening := by
  obtain ⟨t, rest, heq, -, ht⟩ := h.begins
  exact ⟨t, rest, heq, ht not_false⟩

/-- What is derived on a level does not begin with a token that opens looser levels alone. -/
theorem Derives.head?_ne {level : Level} {ts rest : List Token} {e : Expr} {t : Token}
    (h : Derives False level ts e) (ht : t.opening < level.opening) :
    (ts ++ rest).head? ≠ some t := by
  obtain ⟨t', us, rfl, ht'⟩ := h.starts
  rintro heq
  obtain rfl : t' = t := by simpa using heq
  omega

/-- Whether tokens begin like a keyword argument. -/
def BeginsKeyword (ts : List Token) : Prop :=
  ∃ name rest, ts = .name name :: .symbol .assign :: rest

/-- More tokens make no keyword argument of those in front, unless an equals sign comes next. -/
theorem not_beginsKeyword_append {ls rs : List Token} (hls : ls ≠ []) (h : ¬BeginsKeyword ls)
    (hrs : rs.head? ≠ some (.symbol .assign)) : ¬BeginsKeyword (ls ++ rs) := by
  rintro ⟨name, rest, heq⟩
  match ls with
  | [] => exact hls rfl
  | [a] =>
    obtain ⟨-, rfl⟩ : a = .name name ∧ rs = .symbol .assign :: rest := by simpa using heq
    exact hrs rfl
  | a :: b :: ls =>
    obtain ⟨rfl, rfl, -⟩ : a = .name name ∧ b = .symbol .assign ∧ ls ++ rs = rest := by
      simpa using heq
    exact h ⟨name, ls, rfl⟩

theorem Derives.ne_nil {level : Level} {ts : List Token} {e : Expr}
    (h : Derives False level ts e) : ts ≠ [] := by
  obtain ⟨t, rest, rfl, -⟩ := h.starts
  exact List.cons_ne_nil _ _

/-- A comparison has a token, which is not that of a keyword argument. -/
theorem Comparison.tokens_eq_cons (link : Comparison) :
    ∃ t rest, link.tokens = t :: rest ∧ t ≠ .symbol .assign := by
  cases link <;> exact ⟨_, _, rfl, by decide⟩

theorem linkTokens_eq_cons {links : List (Comparison × Phrase)} (h : links ≠ []) :
    ∃ t rest, linkTokens links = t :: rest ∧ t ≠ .symbol .assign := by
  obtain ⟨link, links, rfl⟩ := List.exists_cons_of_ne_nil h
  obtain ⟨t, rest, heq, ht⟩ := link.1.tokens_eq_cons
  exact ⟨t, rest ++ link.2.tokens ++ linkTokens links, by simp [linkTokens, heq], ht⟩

/-- A name at the start of an expression is not followed by an equals sign. -/
theorem Derives.not_beginsKeyword {level : Level} {ts : List Token} {e : Expr}
    (h : Derives False level ts e) : ¬BeginsKeyword ts := by
  induction h with
  | ofFunction _ ih | ofDisjunction _ ih | ofConjunction _ ih | ofNegated _ ih
  | ofComparison _ ih | ofBinary _ ih | tighter _ _ ih | ofSigned _ ih | ofPower _ ih
  | ofPrimary _ ih | ofAtom _ ih => exact ih
  | conditional h _ _ ih | or h _ ih | and h _ ih | power h _ ih | dot h ih
  | call h _ _ _ ih | item h _ ih | itemTuple h _ _ ih | slice h _ _ _ ih =>
    exact not_beginsKeyword_append h.ne_nil ih (by simp)
  | compare h hne _ ih =>
    obtain ⟨t, rest, heq, ht⟩ := linkTokens_eq_cons hne
    rw [heq]
    exact not_beginsKeyword_append h.ne_nil ih (by simpa using ht)
  | binary hn hs h _ ih =>
    have table : ∀ level ∈ binaryLevels, ∀ p ∈ level, p.1 ≠ .assign := by decide
    refine not_beginsKeyword_append h.ne_nil ih ?_
    simpa using table _ (List.getElem_mem hn) _ hs
  | bareFunction h => exact h.elim
  | _ =>
    rintro ⟨name, rest, heq⟩
    simp at heq

/-! ## Sources without functions -/

/-- Where the word `lambda` does not occur, no function stands without brackets. -/
theorem Derives.of_bare {bare : Prop} {level : Level} {ts : List Token} {e : Expr}
    (h : Derives bare level ts e) (hl : .keyword .lambdaWord ∉ ts) : Derives False level ts e := by
  induction h with
  | ofFunction _ ih => exact .ofFunction (ih hl)
  | ofDisjunction _ ih => exact .ofDisjunction (ih hl)
  | conditional _ _ _ ihy iht ihn =>
    simp only [List.mem_append, List.mem_cons, not_or] at hl
    exact .conditional (ihy hl.1) (iht hl.2.2.1) (ihn hl.2.2.2.2)
  | function => simp at hl
  | ofConjunction _ ih => exact .ofConjunction (ih hl)
  | or _ _ ihl ihr =>
    simp only [List.mem_append, List.mem_cons, not_or] at hl
    exact .or (ihl hl.1) (ihr hl.2.2)
  | ofNegated _ ih => exact .ofNegated (ih hl)
  | and _ _ ihl ihr =>
    simp only [List.mem_append, List.mem_cons, not_or] at hl
    exact .and (ihl hl.1) (ihr hl.2.2)
  | ofComparison _ ih => exact .ofComparison (ih hl)
  | not _ ih => exact .not (ih fun h => hl (List.mem_cons_of_mem _ h))
  | ofBinary _ ih => exact .ofBinary (ih hl)
  | compare _ hne _ ih ihs =>
    simp only [linkTokens, List.mem_append, List.mem_flatMap, not_or, not_exists, not_and] at hl
    exact .compare (ih hl.1) hne fun l h => ihs l h (hl.2 l h).2
  | tighter hn _ ih => exact .tighter hn (ih hl)
  | binary hn hs _ _ ihl ihr =>
    simp only [List.mem_append, List.mem_cons, not_or] at hl
    exact .binary hn hs (ihl hl.1) (ihr hl.2.2)
  | ofSigned _ ih => exact .ofSigned (ih hl)
  | ofPower _ ih => exact .ofPower (ih hl)
  | sign _ ih => exact .sign (ih fun h => hl (List.mem_cons_of_mem _ h))
  | ofPrimary _ ih => exact .ofPrimary (ih hl)
  | power _ _ ihb ihe =>
    simp only [List.mem_append, List.mem_cons, not_or] at hl
    exact .power (ihb hl.1) (ihe hl.2.2)
  | ofAtom _ ih => exact .ofAtom (ih hl)
  | dot _ ih => exact .dot (ih fun h => hl (List.mem_append_left _ h))
  | call _ _ ho hs ih ihs =>
    simp only [List.mem_append, List.mem_cons, not_or] at hl
    refine .call (ih hl.1) (fun a ha => ihs a ha fun h => hl.2.2.1 ?_) ho hs
    exact hs.subset _ (List.mem_map_of_mem ha) _ (Argument.value_tokens_subset h)
  | item _ _ ih ihi =>
    simp only [List.mem_append, List.mem_cons, not_or] at hl
    exact .item (ih hl.1) (ihi hl.2.2.1)
  | itemTuple _ _ hs ih ihs =>
    simp only [List.mem_append, List.mem_cons, not_or] at hl
    refine .itemTuple (ih hl.1) (fun p hp => ihs p hp ?_) hs
    rcases List.mem_cons.1 hp with rfl | hp
    · exact hl.2.2.1
    · exact fun h => hl.2.2.2.2.1 (hs.subset _ (List.mem_map_of_mem hp) _ h)
  | slice _ _ _ _ ih ihl ihu ihs =>
    simp only [List.mem_append, List.mem_cons, not_or] at hl
    refine .slice (ih hl.1) (fun p hp => ihl p hp fun h => hl.2.2.1 ?_)
      (fun p hp => ihu p hp fun h => hl.2.2.2.2.1 ?_)
      (fun p hp => ihs p hp fun h => hl.2.2.2.2.2.1 ?_)
    · simpa [partTokens, Option.mem_def.1 hp] using h
    · simpa [partTokens, Option.mem_def.1 hp] using h
    · obtain ⟨part, rfl, hp⟩ := Option.join_eq_some_iff.1 (Option.mem_def.1 hp)
      simpa [stepTokens, partTokens] using h
  | name => exact .name
  | literal h => exact .literal h
  | strings => exact .strings
  | bareFunction _ h =>
    cases h
    simp at hl
  | brackets _ ih =>
    simp only [List.mem_append, List.mem_cons, not_or] at hl
    exact .brackets (ih hl.2.1)
  | unit => exact .unit
  | tuple _ hs ihs =>
    simp only [List.mem_append, List.mem_cons, not_or] at hl
    refine .tuple (fun p hp => ihs p hp ?_) hs
    rcases List.mem_cons.1 hp with rfl | hp
    · exact hl.2.1
    · exact fun h => hl.2.2.2.1 (hs.subset _ (List.mem_map_of_mem hp) _ h)
  | list _ hs ihs =>
    simp only [List.mem_append, List.mem_cons, not_or] at hl
    exact .list (fun p hp => ihs p hp fun h =>
      hl.2.1 (hs.subset _ (List.mem_map_of_mem hp) _ h)) hs
  | dict _ _ hs ihk ihv =>
    simp only [List.mem_append, List.mem_cons, not_or] at hl
    refine .dict (fun p hp => ihk p hp fun h => hl.2.1 ?_)
      (fun p hp => ihv p hp fun h => hl.2.1 ?_) hs
    · exact hs.subset _ (List.mem_map_of_mem hp) _ (List.mem_append_left _ h)
    · exact hs.subset _ (List.mem_map_of_mem hp) _
        (List.mem_append_right _ (List.mem_cons_of_mem _ h))

end ExprLang
