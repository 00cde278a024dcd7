import ExprLang.Error.Syntax
import ExprLang.Expr
import ExprLang.Token.Lexer

/-!
# Reading an expression

A parser takes tokens from the front of a list. The grammar, loosest first: functions and
conditionals, `or`, `and`, `not`, comparison chains, the six levels of `binaryLevels`, signs,
powers, and atoms with what trails them. Every rule that may nest without end, an expression
inside another, the operand of `not`, of a sign or of `**`, is reached through `nested`, which
counts the levels left and fails when none is; so the rules are defined over whatever stands
one level deeper (`Nested`). Repetition is `iterate`, which goes on as long as tokens are taken.

`parse` reads a whole source, after `checkTokens` has seen that the brackets balance in number
and every token is a word. `parseLine` reads a line, which may also define a name.
-/

namespace ExprLang

/-! ## Parsers -/

/-- The tokens left to read, how many they are, and the offset of the end of the source. -/
structure Cursor where
  tokens : List Located
  left : Nat
  ending : Nat
  left_eq : left = tokens.length

/-- The cursor in front of some tokens. -/
def Cursor.start (tokens : List Located) (ending : Nat) : Cursor :=
  ⟨tokens, tokens.length, ending, rfl⟩

/-- The cursor after the next `n` tokens. -/
def Cursor.drop (n : Nat) (c : Cursor) : Cursor :=
  ⟨c.tokens.drop n, c.left - n, c.ending, by rw [List.length_drop, c.left_eq]⟩

/-- The offset of the next token, or of the end. -/
def Cursor.offset (c : Cursor) : Nat :=
  match c.tokens with
  | [] => c.ending
  | t :: _ => t.start

/-- A parser takes tokens off the front of the source, or fails. -/
abbrev Parser := StateT Cursor (Except SyntaxError)

namespace Parser

/-- Fails at a given offset. -/
def failAt {α : Type} (pos : Nat) (cause : SyntaxCause) : Parser α := fun _ =>
  .error ⟨pos, cause⟩

/-- Fails at the next token. -/
def fail {α : Type} (cause : SyntaxCause) : Parser α := fun c =>
  .error ⟨c.offset, cause⟩

/-- Fails because of the next token, or because there is none. -/
def unexpected {α : Type} : Parser α := fun c =>
  match c.tokens with
  | [] => .error ⟨c.ending, .unexpectedEnd⟩
  | t :: _ => .error ⟨t.start, .unexpected t.token.text⟩

/-- The offset of the next token. -/
def offset : Parser Nat := fun c =>
  .ok (c.offset, c)

/-- The next token, left where it is. -/
def peek? : Parser (Option Token) := fun c =>
  .ok (c.tokens.head?.map (·.token), c)

/-- The token after the next one, left where it is. -/
def peekSecond? : Parser (Option Token) := fun c =>
  .ok ((c.tokens.drop 1).head?.map (·.token), c)

/-- Takes `n` tokens. -/
def skip (n : Nat) : Parser Unit := fun c =>
  .ok ((), c.drop n)

/-- Takes the next token if it is `token`, and says so. -/
def eat (token : Token) : Parser Bool := fun c =>
  match c.tokens with
  | [] => .ok (false, c)
  | t :: _ => if t.token = token then .ok (true, c.drop 1) else .ok (false, c)

/-- Takes the next token if it is the symbol `s`, and says so. -/
def eatSymbol (s : Symbol) : Parser Bool :=
  eat (.symbol s)

/-- Takes the next token if it is the keyword `k`, and says so. -/
def eatKeyword (k : Keyword) : Parser Bool :=
  eat (.keyword k)

/-- Takes the symbol `s`, which has to come next. -/
def expect (s : Symbol) : Parser Unit := do
  if ← eatSymbol s then pure () else unexpected

/-- Takes a name, which has to come next. -/
def expectName : Parser String := do
  match ← peek? with
  | some (.name text) => skip 1; pure text
  | _ => unexpected

/-- Succeeds if no token is left. -/
def expectEnd : Parser Unit := do
  if (← peek?).isSome then unexpected

/-- Repeats `step` for as long as it asks for more and takes tokens. -/
def iterate {σ : Type} (step : σ → Parser (σ × Bool)) (s : σ) : Parser σ := fun c =>
  match step s c with
  | .error e => .error e
  | .ok ((s', more), c') =>
    if _h : more = true ∧ c'.left < c.left then iterate step s' c'
    else .ok (s', c')
termination_by c => c.left

/-! ## Rules over what is nested -/

/-- Where a nested part of an expression starts in the grammar. -/
inductive Entry where
  | expression
  | negated
  | signed
  deriving DecidableEq, Repr

/-- Parsers for what stands one level deeper. -/
abbrev Nested := Entry → Parser Expr

variable (deeper : Nested)

/-- Repeats `, item` and then takes `close`, before which a comma may stand. The items are
collected with the last one first. -/
def itemsAfter (close : Symbol) (first : Expr) : Parser (List Expr) := do
  let items ← iterate (fun items => do
    if ← eatSymbol .comma then
      if (← peek?) = some (.symbol close) then pure (items, false)
      else pure ((← deeper .expression) :: items, true)
    else pure (items, false)) [first]
  expect close
  pure items.reverse

/-- The part of a slice before a colon or the closing bracket, if there is one. -/
def slicePart : Parser (Option Expr) := do
  let next ← peek?
  if next = some (.symbol .colon) ∨ next = some (.symbol .closeBracket) then pure none
  else pure (some (← deeper .expression))

/-- A slice from its first colon on. -/
def sliceFrom (target : Expr) (lower : Option Expr) : Parser Expr := do
  expect .colon
  let upper ← slicePart deeper
  let step ← if ← eatSymbol .colon then slicePart deeper else pure none
  expect .closeBracket
  pure (.slice target lower upper step)

/-- What follows an opening bracket after `target`: an index, several as a tuple, or a slice. -/
def subscript (target : Expr) : Parser Expr := do
  if (← peek?) = some (.symbol .colon) then sliceFrom deeper target none
  else
    let first ← deeper .expression
    if ← eatSymbol .closeBracket then pure (.item target first)
    else if (← peek?) = some (.symbol .comma) then
      pure (.item target (.tuple (← itemsAfter deeper .closeBracket first)))
    else sliceFrom deeper target (some first)

/-- The arguments read so far, the last one first, and which kinds were among them. -/
structure ArgumentState where
  args : List (Argument Expr)
  keywordSeen : Bool
  doubleStarSeen : Bool

/-- One argument. A positional one may follow neither a keyword nor a double star, a starred
one no double star. -/
def argument (s : ArgumentState) : Parser ArgumentState := do
  if ← eatSymbol .power then
    let e ← deeper .expression
    pure { s with args := .doubleStar e :: s.args, doubleStarSeen := true }
  else if ← eatSymbol .star then
    if s.doubleStarSeen then fail .starAfterDoubleStar
    let e ← deeper .expression
    pure { s with args := .star e :: s.args }
  else
    match ← peek?, ← peekSecond? with
    | some (.name name), some (.symbol .assign) =>
      skip 2
      let e ← deeper .expression
      pure { s with args := .keyword name e :: s.args, keywordSeen := true }
    | _, _ =>
      if s.keywordSeen || s.doubleStarSeen then fail .positionalAfterKeyword
      let e ← deeper .expression
      pure { s with args := .positional e :: s.args }

/-- The arguments of a call, after its opening bracket. -/
def arguments : Parser (List (Argument Expr)) := do
  let s ← iterate (fun s => do
    if ← eatSymbol .closeParen then pure (s, false)
    else
      let s ← argument deeper s
      if ← eatSymbol .comma then pure (s, true)
      else
        expect .closeParen
        pure (s, false)) (⟨[], false, false⟩ : ArgumentState)
  pure s.args.reverse

/-- The entries of a dict display, after its opening brace. -/
def entries : Parser (List (Expr × Expr)) := do
  let entries ← iterate (fun entries => do
    if ← eatSymbol .closeBrace then pure (entries, false)
    else
      let key ← deeper .expression
      unless ← eatSymbol .colon do fail .missingColon
      let value ← deeper .expression
      if ← eatSymbol .comma then pure ((key, value) :: entries, true)
      else
        expect .closeBrace
        pure ((key, value) :: entries, false)) []
  pure entries.reverse

/-- The parameters read so far, their names, and whether a star was among them. -/
structure ParamState where
  params : Params Expr
  seen : List String
  starSeen : Bool

/-- One parameter: its name, or nothing for a bare star, with the parameters it makes. -/
def parameter (s : ParamState) : Parser (Option String × ParamState) := do
  let pos ← offset
  if ← eatSymbol .power then
    let name ← expectName
    pure (some name, { s with params := { s.params with kwargs := some name } })
  else if ← eatSymbol .star then
    if s.starSeen then fail .repeatedStar
    if ← eatSymbol .comma then pure (none, { s with starSeen := true })
    else
      let name ← expectName
      pure (some name,
        { s with params := { s.params with varargs := some name }, starSeen := true })
  else
    let name ← expectName
    let default ← if ← eatSymbol .assign then some <$> deeper .expression else pure none
    let param : Param Expr := ⟨name, default⟩
    if s.starSeen then
      pure (some name,
        { s with params := { s.params with keywordOnly := s.params.keywordOnly ++ [param] } })
    else
      let afterDefault := (s.params.positional.getLast?).any (·.default.isSome)
      if afterDefault && default.isNone then failAt pos .requiredAfterDefault
      pure (some name,
        { s with params := { s.params with positional := s.params.positional ++ [param] } })

/-- The parameters of a function, up to the colon before its body. Names are distinct, and a
bare star is followed by a parameter it makes keyword-only. -/
def parameters : Parser (Params Expr) := do
  let s ← iterate (fun s => do
    if ← eatSymbol .colon then pure (s, false)
    else
      if s.params.kwargs.isSome then fail .parameterAfterKwargs
      let pos ← offset
      match ← parameter deeper s with
      | (none, s) => pure (s, true)
      | (some name, s) =>
        if s.seen.contains name then failAt pos (.duplicateParameter name)
        let s := { s with seen := name :: s.seen }
        if ← eatSymbol .comma then pure (s, true)
        else
          expect .colon
          pure (s, false)) (⟨⟨[], none, [], none⟩, [], false⟩ : ParamState)
  if s.starSeen && s.params.varargs.isNone && s.params.keywordOnly.isEmpty then fail .bareStarLast
  pure s.params

/-- A function, after its keyword. -/
def lambda : Parser Expr := do
  let params ← parameters deeper
  let body ← deeper .expression
  pure (.lambda params body)

/-! ## Atoms and what trails them -/

/-- The greatest integer that fits in a word. -/
def maxInteger : Nat := Nat.pow 2 63 - 1

/-- The value of an integer literal. -/
def integerValue (text : String) : Except SyntaxCause Int64 :=
  let digits := text.toList.filter (· != '_')
  let (radix, body) :=
    match digits with
    | '0' :: mark :: rest =>
      if mark = 'x' ∨ mark = 'X' then (16, rest)
      else if mark = 'o' ∨ mark = 'O' then (8, rest)
      else if mark = 'b' ∨ mark = 'B' then (2, rest)
      else (10, digits)
    | _ => (10, digits)
  if radix == 10 && body.head? == some '0' && body.any (· != '0') then .error .leadingZeros
  else
    match readNat radix maxInteger body with
    | .ok n => .ok (Int64.ofNat n)
    | .error fault => .error (.badInteger text fault)

/-- The value of a float literal, or of an imaginary one without its letter. -/
def floatValue (text : String) : Except SyntaxCause Double :=
  match readFloat? (text.toList.filter (· != '_')) with
  | some x => .ok x
  | none => .error (.badFloat text)

/-- A literal whose value stands at `pos`. -/
def literalAt {α : Type} (pos : Nat) (value : Except SyntaxCause α) (make : α → Literal) :
    Parser Expr :=
  match value with
  | .ok a => pure (.literal (make a))
  | .error cause => failAt pos cause

/-- The values of the string literals at the front. -/
def leadingStrings : List Located → List String
  | [] => []
  | t :: rest =>
    match t.token with
    | .str value => value :: leadingStrings rest
    | _ => []

/-- Takes the string literals that come next and runs them together. -/
def strings : Parser String := fun c =>
  let values := leadingStrings c.tokens
  .ok (String.join values, c.drop values.length)

/-- What starts with an opening parenthesis: a tuple, or one expression in brackets. -/
def parenthesised : Parser Expr := do
  if ← eatSymbol .closeParen then pure (.tuple [])
  else
    let first ← deeper .expression
    if ← eatSymbol .closeParen then pure first
    else pure (.tuple (← itemsAfter deeper .closeParen first))

/-- What starts with an opening bracket. -/
def listDisplay : Parser Expr := do
  if ← eatSymbol .closeBracket then pure (.list [])
  else
    let first ← deeper .expression
    pure (.list (← itemsAfter deeper .closeBracket first))

/-- An expression without operators: a name, a literal, a display, a function or anything in
brackets. -/
def atom : Parser Expr := do
  let pos ← offset
  match ← peek? with
  | none => fail .unexpectedEnd
  | some (.str _) => return .literal (.str (← strings))
  | some token =>
    skip 1
    match token with
    | .name text => pure (.var text)
    | .keyword .trueWord => pure (.literal (.bool true))
    | .keyword .falseWord => pure (.literal (.bool false))
    | .keyword .noneWord => pure (.literal .none)
    | .keyword .lambdaWord => lambda deeper
    | .int text => literalAt pos (integerValue text) .int
    | .float text => literalAt pos (floatValue text) .float
    | .imaginary text => literalAt pos (floatValue text) .imaginary
    | .symbol .openParen => parenthesised deeper
    | .symbol .openBracket => listDisplay deeper
    | .symbol .openBrace => .dict <$> entries deeper
    | .reserved word => failAt pos (.reservedWord word)
    | token => failAt pos (.unexpected token.text)

/-- An atom with attributes, calls and subscripts. -/
def primary : Parser Expr := do
  iterate (fun e => do
    if ← eatSymbol .dot then pure (.attribute e (← expectName), true)
    else if ← eatSymbol .openParen then pure (.call e (← arguments deeper), true)
    else if ← eatSymbol .openBracket then pure (← subscript deeper e, true)
    else pure (e, false)) (← atom deeper)

/-! ## Operators -/

/-- A primary, raised to a power or not. -/
def power : Parser Expr := do
  let base ← primary deeper
  if ← eatSymbol .power then pure (.binary .pow base (← deeper .signed)) else pure base

/-- The sign a token stands for. -/
def sign? : Token → Option UnaryOp
  | .symbol .plus => some .pos
  | .symbol .minus => some .neg
  | .symbol .tilde => some .invert
  | _ => none

/-- A power, with or without signs. -/
def signed : Parser Expr := do
  match (← peek?).bind sign? with
  | some op =>
    skip 1
    pure (.unary op (← deeper .signed))
  | none => power deeper

/-- Operands joined from the left by the operators that `join?` knows. -/
def joined (operand : Parser Expr) (join? : Token → Option (Expr → Expr → Expr)) : Parser Expr := do
  iterate (fun left => do
    match (← peek?).bind join? with
    | some join =>
      skip 1
      pure (join left (← operand), true)
    | none => pure (left, false)) (← operand)

/-- The binary operators by level, loosest first. -/
def binaryLevels : List (List (Symbol × BinaryOp)) :=
  [[(.pipe, .bitOr)],
   [(.caret, .bitXor)],
   [(.ampersand, .bitAnd)],
   [(.shiftLeft, .shiftLeft), (.shiftRight, .shiftRight)],
   [(.plus, .add), (.minus, .sub)],
   [(.star, .mul), (.slash, .div), (.floorDivide, .floorDiv), (.percent, .mod),
    (.atSign, .matmul)]]

/-- The operator that a token is at a level. -/
def levelJoin? (level : List (Symbol × BinaryOp)) : Token → Option (Expr → Expr → Expr)
  | .symbol s => (level.lookup s).map fun op => Expr.binary op
  | _ => none

/-- Operands joined by the operators of the given levels, the last level tightest. -/
def binary : List (List (Symbol × BinaryOp)) → Parser Expr
  | [] => signed deeper
  | level :: tighter => joined (binary tighter) (levelJoin? level)

/-- The link that two tokens start, and how many of them it takes. -/
def link? : Option Token → Option Token → Option (Comparison × Nat)
  | some (.symbol .equal), _ => some (.equal, 1)
  | some (.symbol .notEqual), _ => some (.notEqual, 1)
  | some (.symbol .less), _ => some (.less, 1)
  | some (.symbol .lessEqual), _ => some (.lessEqual, 1)
  | some (.symbol .greater), _ => some (.greater, 1)
  | some (.symbol .greaterEqual), _ => some (.greaterEqual, 1)
  | some (.keyword .inWord), _ => some (.isIn, 1)
  | some (.keyword .notWord), some (.keyword .inWord) => some (.notIn, 2)
  | some (.keyword .isWord), some (.keyword .notWord) => some (.notSame, 2)
  | some (.keyword .isWord), _ => some (.same, 1)
  | _, _ => none

/-- A chain of comparisons. -/
def comparison : Parser Expr := do
  let first ← binary deeper binaryLevels
  let links ← iterate (fun links => do
    match link? (← peek?) (← peekSecond?) with
    | some (op, width) =>
      skip width
      pure ((op, ← binary deeper binaryLevels) :: links, true)
    | none => pure (links, false)) []
  if links.isEmpty then pure first else pure (.compare first links.reverse)

/-- A comparison, negated or not. -/
def negated : Parser Expr := do
  if ← eatKeyword .notWord then pure (.not (← deeper .negated)) else comparison deeper

/-- The token `k` as an operator between truth values. -/
def boolJoin? (k : Keyword) (op : BoolOp) (token : Token) : Option (Expr → Expr → Expr) :=
  if token = .keyword k then some (.bool op) else none

/-- Negations joined by `and`. -/
def conjunction : Parser Expr :=
  joined (negated deeper) (boolJoin? .andWord .and)

/-- Conjunctions joined by `or`. -/
def disjunction : Parser Expr :=
  joined (conjunction deeper) (boolJoin? .orWord .or)

/-- A disjunction, or a conditional with two of them. -/
def conditional : Parser Expr := do
  let yes ← disjunction deeper
  if ← eatKeyword .ifWord then
    let test ← disjunction deeper
    unless ← eatKeyword .elseWord do fail .missingElse
    pure (.conditional test yes (← deeper .expression))
  else pure yes

/-- A whole expression. -/
def expression : Parser Expr := do
  if ← eatKeyword .lambdaWord then lambda deeper else conditional deeper

/-! ## Nesting -/

/-- How many levels expressions may nest. -/
def maxNesting : Nat := 1500

/-- A nested part of an expression, with `room` levels left for it and what it holds. -/
def nested : (room : Nat) → Nested
  | 0, _ => fail .tooDeep
  | room + 1, .expression => expression (nested room)
  | room + 1, .negated => negated (nested room)
  | room + 1, .signed => signed (nested room)

/-- An expression that takes all tokens. -/
def whole : Parser Expr := do
  let e ← nested maxNesting .expression
  expectEnd
  pure e

end Parser

/-! ## Sources -/

/-- Whether a symbol opens a bracket of any shape. -/
def Symbol.isOpening : Symbol → Bool
  | .openParen | .openBracket | .openBrace => true
  | _ => false

/-- Whether a symbol closes a bracket of any shape. -/
def Symbol.isClosing : Symbol → Bool
  | .closeParen | .closeBracket | .closeBrace => true
  | _ => false

/-- Refuses tokens that are no words, and brackets that do not balance in number; `depth` are
open before the tokens. -/
def checkTokens (ending : Nat) : (depth : Nat) → List Located → Except SyntaxError Unit
  | 0, [] => .ok ()
  | depth + 1, [] => .error ⟨ending, .unclosed (depth + 1)⟩
  | depth, t :: rest =>
    match t.token with
    | .unterminated => .error ⟨t.start, .unterminatedString⟩
    | .invalid c => .error ⟨t.start, .invalidCharacter c⟩
    | .symbol s =>
      if s.isOpening then checkTokens ending (depth + 1) rest
      else if s.isClosing then
        match depth with
        | 0 => .error ⟨t.start, .unmatched s.text⟩
        | depth + 1 => checkTokens ending depth rest
      else checkTokens ending depth rest
    | _ => checkTokens ending depth rest

/-- The tokens of a source, checked. -/
def Cursor.ofSource (source : String) : Except SyntaxError Cursor := do
  let c := Cursor.start (ExprLang.tokens source) source.utf8ByteSize
  checkTokens c.ending 0 c.tokens
  pure c

/-- What a parser makes of the tokens. -/
def Parser.runOn {α : Type} (p : Parser α) (c : Cursor) : Except SyntaxError α :=
  (StateT.run p c).map (·.1)

/-- The expression that a source is. -/
def parse (source : String) : Except SyntaxError Expr := do
  let c ← Cursor.ofSource source
  if c.tokens.isEmpty then .error ⟨c.offset, .emptyExpression⟩
  else Parser.whole.runOn c

/-- A line of input. -/
inductive Line where
  | blank
  | definition (name : String) (value : Expr)
  | expr (e : Expr)

/-- The name that a line defines with its first two tokens. -/
def definedName? : List Located → Option String
  | n :: sign :: _ =>
    match n.token, sign.token with
    | .name name, .symbol .assign => some name
    | .name name, .symbol .define => some name
    | _, _ => none
  | _ => none

/-- What a line says: nothing, a definition, or an expression. -/
def parseLine (line : String) : Except SyntaxError Line := do
  let c ← Cursor.ofSource line
  if c.tokens.isEmpty then pure .blank
  else
    match definedName? c.tokens with
    | some name =>
      let c := c.drop 2
      if c.tokens.isEmpty then .error ⟨c.offset, .emptyDefinition⟩
      else .definition name <$> Parser.whole.runOn c
    | none => .expr <$> Parser.whole.runOn c

end ExprLang
