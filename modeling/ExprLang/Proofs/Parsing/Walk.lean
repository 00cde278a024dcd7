import ExprLang.Expr.Parser
import ExprLang.Proofs.Tokens.Tiling

/-!
# The parser at work

The parser as it runs: it keeps all tokens of the source, the index of the next one and a count of
how deep expressions nest, and moves the index by hand (`Walker`). Nothing here sees to it that the
index stays among the tokens, that the count comes down again, or that a loop ends. A repetition
goes on for as long as its step asks for more, taking tokens or not, and what is nested is entered
again and again until the count is refused (`Walk.enter`). So a walk is given a limit of rounds, for
its loops and its nesting and for the cutting of the source, and comes to nothing at all if it needs
more.

Steps and methods have the names that they have in the parser. `Rule` lists the methods, `Rule.walk`
says how the walker goes through one, and `Rule.parser` which parser makes the same of the tokens
ahead. `Walk.source` and `Walk.line` go through a whole source and a whole line.
-/

namespace ExprLang

open ExprLang.Parser (Entry ArgumentState ParamState integerValue floatValue sign? levelJoin?
  binaryLevels link? boolJoin? maxNesting)

/-- Cuts tokens off for as long as there are any. -/
def Scan.collect : (limit : Nat) → Scan → Option (List Located)
  | 0, _ => none
  | limit + 1, s =>
    match s.next with
    | (none, _) => some []
    | (some t, s) => (s.collect limit).map (⟨s.start, s.pos, t⟩ :: ·)

/-! ## Walkers -/

/-- The tokens of a source, the offset of its end, the index of the next token, the count of the
levels that are open, and the highest this count has been. -/
structure Walker where
  tokens : List Located
  ending : Nat
  index : Nat
  depth : Nat
  peak : Nat

namespace Walker

/-- The token `n` places after the next one. -/
def ahead? (s : Walker) (n : Nat) : Option Token :=
  s.tokens[s.index + n]?.map (·.token)

/-- The offset of the next token, or of the end. -/
def offset (s : Walker) : Nat :=
  match s.tokens[s.index]? with
  | some t => t.start
  | none => s.ending

/-- The walker with its index moved on. -/
def move (s : Walker) (n : Nat) : Walker :=
  { s with index := s.index + n }

/-- The walker with a level opened. -/
def descend (s : Walker) : Walker :=
  { s with depth := s.depth + 1, peak := max s.peak (s.depth + 1) }

/-- The walker with a level closed. -/
def ascend (s : Walker) : Walker :=
  { s with depth := s.depth - 1 }

/-- The walker in front of all tokens. -/
def start (tokens : List Located) (ending : Nat) : Walker :=
  ⟨tokens, ending, 0, 0, 0⟩

end Walker

/-- What a walker does and comes to; nothing, if it is given too few rounds. After an error it
stands where it found it. -/
abbrev Walk := ExceptT SyntaxError (StateT Walker Option)

namespace Walk

variable {α σ : Type}

/-! ## Steps -/

/-- Comes to no end. -/
def stray : Walk α := fun _ => none

def failAt (pos : Nat) (cause : SyntaxCause) : Walk α := fun s =>
  some (.error ⟨pos, cause⟩, s)

def fail (cause : SyntaxCause) : Walk α := fun s =>
  some (.error ⟨s.offset, cause⟩, s)

/-- What is wrong with the next token, or with there being none. -/
def surprise : Option Token → SyntaxCause
  | some t => .unexpected t.text
  | none => .unexpectedEnd

def unexpected : Walk α := fun s =>
  some (.error ⟨s.offset, surprise (s.ahead? 0)⟩, s)

def offset : Walk Nat := fun s => some (.ok s.offset, s)

def peek? : Walk (Option Token) := fun s => some (.ok (s.ahead? 0), s)

def peekSecond? : Walk (Option Token) := fun s => some (.ok (s.ahead? 1), s)

def skip (n : Nat) : Walk Unit := fun s => some (.ok (), s.move n)

def eat (token : Token) : Walk Bool := fun s =>
  if s.ahead? 0 = some token then some (.ok true, s.move 1) else some (.ok false, s)

def atEnd : Walk Bool := fun s => some (.ok (decide (s.tokens.length ≤ s.index)), s)

def expect (symbol : Symbol) : Walk Unit := do
  if ← eat (.symbol symbol) then pure () else unexpected

def expectName : Walk String := do
  match ← peek? with
  | some (.name text) => skip 1; pure text
  | _ => unexpected

def expectEnd : Walk Unit := do
  if ← atEnd then pure () else unexpected

/-- One level deeper. The count is brought down again whatever comes of it. -/
def deepen (w : Walk α) : Walk α := fun s =>
  if maxNesting ≤ s.depth then some (.error ⟨s.offset, .tooDeep⟩, s)
  else (w s.descend).map fun (r, s) => (r, s.ascend)

/-- Repeats `step` for as long as it asks for more. -/
def loop (step : σ → Walk (σ × Bool)) : (limit : Nat) → σ → Walk σ
  | 0, _ => stray
  | limit + 1, state => do
    let (state, more) ← step state
    if more then loop step limit state else pure state

/-! ## Methods -/

variable (limit : Nat) (deeper : Entry → Walk Expr)

def itemsAfter (close : Symbol) (first : Expr) : Walk (List Expr) := do
  let items ← loop (fun items => do
    if ← eat (.symbol .comma) then
      if (← peek?) = some (.symbol close) then pure (items, false)
      else pure ((← deeper .expression) :: items, true)
    else pure (items, false)) limit [first]
  expect close
  pure items.reverse

def slicePart : Walk (Option Expr) := do
  let next ← peek?
  if next = some (.symbol .colon) ∨ next = some (.symbol .closeBracket) then pure none
  else pure (some (← deeper .expression))

def sliceFrom (target : Expr) (lower : Option Expr) : Walk Expr := do
  expect .colon
  let upper ← slicePart deeper
  let step ← if ← eat (.symbol .colon) then slicePart deeper else pure none
  expect .closeBracket
  pure (.slice target lower upper step)

def subscript (target : Expr) : Walk Expr := do
  if (← peek?) = some (.symbol .colon) then sliceFrom deeper target none
  else
    let first ← deeper .expression
    if ← eat (.symbol .closeBracket) then pure (.item target first)
    else if (← peek?) = some (.symbol .comma) then
      pure (.item target (.tuple (← itemsAfter limit deeper .closeBracket first)))
    else sliceFrom deeper target (some first)

def argument (s : ArgumentState) : Walk ArgumentState := do
  if ← eat (.symbol .power) then
    let e ← deeper .expression
    pure { s with args := .doubleStar e :: s.args, doubleStarSeen := true }
  else if ← eat (.symbol .star) then
    if s.doubleStarSeen then fail .starAfterDoubleStar
    let e ← deeper .expression
    pure { s with args := .star e :: s.args }
  else
    match ← peek?, ← peekSecond? with
    | some (.name name), some (.symbol .assign) =>
      skip 2
      let e ← deeper .expression
      pure { s with args := .keyword name e :: s.args, keywordSeen := true }
    | _, _ =>
      if s.keywordSeen || s.doubleStarSeen then fail .positionalAfterKeyword
      let e ← deeper .expression
      pure { s with args := .positional e :: s.args }

def arguments : Walk (List (Argument Expr)) := do
  let s ← loop (fun s => do
    if ← eat (.symbol .closeParen) then pure (s, false)
    else
      let s ← argument deeper s
      if ← eat (.symbol .comma) then pure (s, true)
      else
        expect .closeParen
        pure (s, false)) limit (⟨[], false, false⟩ : ArgumentState)
  pure s.args.reverse

def entries : Walk (List (Expr × Expr)) := do
  let entries ← loop (fun entries => do
    if ← eat (.symbol .closeBrace) then pure (entries, false)
    else
      let key ← deeper .expression
      unless ← eat (.symbol .colon) do fail .missingColon
      let value ← deeper .expression
      if ← eat (.symbol .comma) then pure ((key, value) :: entries, true)
      else
        expect .closeBrace
        pure ((key, value) :: entries, false)) limit []
  pure entries.reverse

def parameter (s : ParamState) : Walk (Option String × ParamState) := do
  let pos ← offset
  if ← eat (.symbol .power) then
    let name ← expectName
    pure (some name, { s with params := { s.params with kwargs := some name } })
  else if ← eat (.symbol .star) then
    if s.starSeen then fail .repeatedStar
    if ← eat (.symbol .comma) then pure (none, { s with starSeen := true })
    else
      let name ← expectName
      pure (some name,
        { s with params := { s.params with varargs := some name }, starSeen := true })
  else
    let name ← expectName
    let default ← if ← eat (.symbol .assign) then some <$> deeper .expression else pure none
    let param : Param Expr := ⟨name, default⟩
    if s.starSeen then
      pure (some name,
        { s with params := { s.params with keywordOnly := s.params.keywordOnly ++ [param] } })
    else
      let afterDefault := (s.params.positional.getLast?).any (·.default.isSome)
      if afterDefault && default.isNone then failAt pos .requiredAfterDefault
      pure (some name,
        { s with params := { s.params with positional := s.params.positional ++ [param] } })

def parameters : Walk (Params Expr) := do
  let s ← loop (fun s => do
    if ← eat (.symbol .colon) then pure (s, false)
    else
      if s.params.kwargs.isSome then fail .parameterAfterKwargs
      let pos ← offset
      match ← parameter deeper s with
      | (none, s) => pure (s, true)
      | (some name, s) =>
        if s.seen.contains name then failAt pos (.duplicateParameter name)
        let s := { s with seen := name :: s.seen }
        if ← eat (.symbol .comma) then pure (s, true)
        else
          expect .colon
          pure (s, false)) limit (⟨⟨[], none, [], none⟩, [], false⟩ : ParamState)
  if s.starSeen && s.params.varargs.isNone && s.params.keywordOnly.isEmpty then fail .bareStarLast
  pure s.params

def lambda : Walk Expr := do
  let params ← parameters limit deeper
  let body ← deeper .expression
  pure (.lambda params body)

def literalAt (pos : Nat) (value : Except SyntaxCause α) (make : α → Literal) : Walk Expr :=
  match value with
  | .ok a => pure (.literal (make a))
  | .error cause => failAt pos cause

/-- Takes the string literals that come next and adds them to a first one. -/
def strings (first : String) : Walk String :=
  loop (fun value => do
    match ← peek? with
    | some (.str more) => skip 1; pure (value ++ more, true)
    | _ => pure (value, false)) limit first

def parenthesised : Walk Expr := do
  if ← eat (.symbol .closeParen) then pure (.tuple [])
  else
    let first ← deeper .expression
    if ← eat (.symbol .closeParen) then pure first
    else pure (.tuple (← itemsAfter limit deeper .closeParen first))

def listDisplay : Walk Expr := do
  if ← eat (.symbol .closeBracket) then pure (.list [])
  else
    let first ← deeper .expression
    pure (.list (← itemsAfter limit deeper .closeBracket first))

def atom : Walk Expr := do
  let pos ← offset
  match ← peek? with
  | none => fail .unexpectedEnd
  | some token =>
    skip 1
    match token with
    | .name text => pure (.var text)
    | .keyword .trueWord => pure (.literal (.bool true))
    | .keyword .falseWord => pure (.literal (.bool false))
    | .keyword .noneWord => pure (.literal .none)
    | .keyword .lambdaWord => lambda limit deeper
    | .int text => literalAt pos (integerValue text) .int
    | .float text => literalAt pos (floatValue text) .float
    | .imaginary text => literalAt pos (floatValue text) .imaginary
    | .str value => return .literal (.str (← strings limit value))
    | .symbol .openParen => parenthesised limit deeper
    | .symbol .openBracket => listDisplay limit deeper
    | .symbol .openBrace => .dict <$> entries limit deeper
    | .reserved word => failAt pos (.reservedWord word)
    | token => failAt pos (.unexpected token.text)

def primary : Walk Expr := do
  loop (fun e => do
    if ← eat (.symbol .dot) then pure (.attribute e (← expectName), true)
    else if ← eat (.symbol .openParen) then pure (.call e (← arguments limit deeper), true)
    else if ← eat (.symbol .openBracket) then pure (← subscript limit deeper e, true)
    else pure (e, false)) limit (← atom limit deeper)

def power : Walk Expr := do
  let base ← primary limit deeper
  if ← eat (.symbol .power) then pure (.binary .pow base (← deeper .signed)) else pure base

def signed : Walk Expr := do
  match (← peek?).bind sign? with
  | some op =>
    skip 1
    pure (.unary op (← deeper .signed))
  | none => power limit deeper

def joined (operand : Walk Expr) (join? : Token → Option (Expr → Expr → Expr)) : Walk Expr := do
  loop (fun left => do
    match (← peek?).bind join? with
    | some join =>
      skip 1
      pure (join left (← operand), true)
    | none => pure (left, false)) limit (← operand)

def binary : List (List (Symbol × BinaryOp)) → Walk Expr
  | [] => signed limit deeper
  | level :: tighter => joined limit (binary tighter) (levelJoin? level)

def comparison : Walk Expr := do
  let first ← binary limit deeper binaryLevels
  let links ← loop (fun links => do
    match link? (← peek?) (← peekSecond?) with
    | some (op, width) =>
      skip width
      pure ((op, ← binary limit deeper binaryLevels) :: links, true)
    | none => pure (links, false)) limit []
  if links.isEmpty then pure first else pure (.compare first links.reverse)

def negated : Walk Expr := do
  if ← eat (.keyword .notWord) then pure (.not (← deeper .negated)) else comparison limit deeper

def conjunction : Walk Expr :=
  joined limit (negated limit deeper) (boolJoin? .andWord .and)

def disjunction : Walk Expr :=
  joined limit (conjunction limit deeper) (boolJoin? .orWord .or)

def conditional : Walk Expr := do
  let yes ← disjunction limit deeper
  if ← eat (.keyword .ifWord) then
    let test ← disjunction limit deeper
    unless ← eat (.keyword .elseWord) do fail .missingElse
    pure (.conditional test yes (← deeper .expression))
  else pure yes

def expression : Walk Expr := do
  if ← eat (.keyword .lambdaWord) then lambda limit deeper else conditional limit deeper

/-- A nested part of an expression, with what it holds entered in the same way. -/
def enter : (rounds : Nat) → Entry → Walk Expr
  | 0, _ => stray
  | rounds + 1, entry =>
    deepen <| match entry with
      | .expression => expression limit (enter rounds)
      | .negated => negated limit (enter rounds)
      | .signed => signed limit (enter rounds)

/-! ## Sources -/

/-- An expression that takes all tokens. -/
def whole : Walk Expr := do
  let e ← enter limit limit .expression
  expectEnd
  pure e

/-- A source, which has to have tokens. -/
def source : Walk Expr := do
  if ← atEnd then fail .emptyExpression
  whole limit

/-- The name that the first two tokens define. -/
def definedName? : Walk (Option String) := fun s =>
  some (.ok (ExprLang.definedName? s.tokens), s)

/-- A line, which may have no tokens or define a name. -/
def line : Walk Line := do
  if ← atEnd then pure .blank
  else
    match ← definedName? with
    | some name =>
      skip 2
      if ← atEnd then fail .emptyDefinition
      .definition name <$> whole limit
    | none => .expr <$> whole limit

/-- What a walk through a source comes to: the source is cut, the tokens are checked, and the walker
starts in front of them. -/
def through (w : Walk α) (source : String) : Option (Except SyntaxError α) := do
  let tokens ← (Scan.ofSource source).collect limit
  match checkTokens source.utf8ByteSize 0 tokens with
  | .error e => some (.error e)
  | .ok () => (w (.start tokens source.utf8ByteSize)).map (·.1)

end Walk

/-! ## Names of the methods -/

/-- The methods of the parser, by what they return. -/
inductive Rule : Type → Type
  | nested (entry : Entry) : Rule Expr
  | lambda : Rule Expr
  | parameters : Rule (Params Expr)
  | conditional : Rule Expr
  | disjunction : Rule Expr
  | conjunction : Rule Expr
  | negated : Rule Expr
  | comparison : Rule Expr
  | binary (level : Nat) : Rule Expr
  | signed : Rule Expr
  | power : Rule Expr
  | primary : Rule Expr
  | arguments : Rule (List (Argument Expr))
  | subscript (target : Expr) : Rule Expr
  | slicePart : Rule (Option Expr)
  | itemsAfter (close : Symbol) (first : Expr) : Rule (List Expr)
  | atom : Rule Expr
  | entries : Rule (List (Expr × Expr))

namespace Rule

variable {α : Type}

/-- How the walker goes through a method. -/
def walk (limit : Nat) : Rule α → Walk α
  | .nested entry => Walk.enter limit limit entry
  | .lambda => Walk.lambda limit (Walk.enter limit limit)
  | .parameters => Walk.parameters limit (Walk.enter limit limit)
  | .conditional => Walk.conditional limit (Walk.enter limit limit)
  | .disjunction => Walk.disjunction limit (Walk.enter limit limit)
  | .conjunction => Walk.conjunction limit (Walk.enter limit limit)
  | .negated => Walk.negated limit (Walk.enter limit limit)
  | .comparison => Walk.comparison limit (Walk.enter limit limit)
  | .binary level => Walk.binary limit (Walk.enter limit limit) (binaryLevels.drop level)
  | .signed => Walk.signed limit (Walk.enter limit limit)
  | .power => Walk.power limit (Walk.enter limit limit)
  | .primary => Walk.primary limit (Walk.enter limit limit)
  | .arguments => Walk.arguments limit (Walk.enter limit limit)
  | .subscript target => Walk.subscript limit (Walk.enter limit limit) target
  | .slicePart => Walk.slicePart (Walk.enter limit limit)
  | .itemsAfter close first => Walk.itemsAfter limit (Walk.enter limit limit) close first
  | .atom => Walk.atom limit (Walk.enter limit limit)
  | .entries => Walk.entries limit (Walk.enter limit limit)

/-- The parser of a method, with `room` levels left. -/
def parser (room : Nat) : Rule α → Parser α
  | .nested entry => Parser.nested room entry
  | .lambda => Parser.lambda (Parser.nested room)
  | .parameters => Parser.parameters (Parser.nested room)
  | .conditional => Parser.conditional (Parser.nested room)
  | .disjunction => Parser.disjunction (Parser.nested room)
  | .conjunction => Parser.conjunction (Parser.nested room)
  | .negated => Parser.negated (Parser.nested room)
  | .comparison => Parser.comparison (Parser.nested room)
  | .binary level => Parser.binary (Parser.nested room) (binaryLevels.drop level)
  | .signed => Parser.signed (Parser.nested room)
  | .power => Parser.power (Parser.nested room)
  | .primary => Parser.primary (Parser.nested room)
  | .arguments => Parser.arguments (Parser.nested room)
  | .subscript target => Parser.subscript (Parser.nested room) target
  | .slicePart => Parser.slicePart (Parser.nested room)
  | .itemsAfter close first => Parser.itemsAfter (Parser.nested room) close first
  | .atom => Parser.atom (Parser.nested room)
  | .entries => Parser.entries (Parser.nested room)

/-- Whether a method has read something with what it returns. All have, but the part of a slice that
is not there. -/
def Reads : Rule α → α → Prop
  | .slicePart, part => part.isSome = true
  | _, _ => True

end Rule

end ExprLang
