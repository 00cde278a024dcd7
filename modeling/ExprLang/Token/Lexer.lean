import ExprLang.Text.Letter
import ExprLang.Text.Search
import ExprLang.Token

/-!
# Cutting a source into tokens

Between tokens stand blanks and comments, which run from `#` to the end of the line
(`skipBlanks`). `scanToken` cuts one token off a text that starts with neither; what it
takes and what it leaves make up the text (`scanToken_append`), and it takes something
(`scanToken_rest_lt`), so `tokensFrom` ends. `skipBlanks_append` says the same of what
lies between.
-/

namespace ExprLang

/-! ## Classes of characters -/

/-- Whether `c` can start a name. -/
def isNameStart (c : Char) : Bool :=
  isLetter c || c == '_'

/-- Whether `c` can stand in a name after its first character. -/
def isNameContinue (c : Char) : Bool :=
  isLetter c || isNumeral c || c == '_'

/-- Whether `name` is spelt like the name of a variable. -/
def isIdentifier (name : String) : Bool :=
  match name.toList with
  | [] => false
  | c :: cs => isNameStart c && cs.all isNameContinue

/-- Whether `c` can stand among the digits of a decimal number. -/
def isDigitOrLow (c : Char) : Bool :=
  c.isDigit || c == '_'

/-- Whether `c` can stand after the mark of a base. -/
def isRadixDigit (c : Char) : Bool :=
  c.isAlphanum || c == '_'

/-- Whether `c` is the letter of a base, after a zero. -/
def isRadixMark (c : Char) : Bool :=
  ['x', 'X', 'o', 'O', 'b', 'B'].contains c

/-! ## Blanks and comments -/

/-- The longest start of a text made of blanks and comments, and the rest. -/
def skipBlanks : (inComment : Bool) → List Char → List Char × List Char
  | _, [] => ([], [])
  | true, c :: cs =>
    let (skipped, rest) := skipBlanks (c != '\n') cs
    (c :: skipped, rest)
  | false, c :: cs =>
    if isBlank c || c == '#' then
      let (skipped, rest) := skipBlanks (c == '#') cs
      (c :: skipped, rest)
    else ([], c :: cs)

theorem skipBlanks_append (inComment : Bool) (cs : List Char) :
    (skipBlanks inComment cs).1 ++ (skipBlanks inComment cs).2 = cs := by
  induction cs generalizing inComment with
  | nil => cases inComment <;> rfl
  | cons c cs ih =>
    cases inComment with
    | true => simp [skipBlanks, ih]
    | false =>
      by_cases h : isBlank c || c == '#' <;> simp [skipBlanks, h, ih]

/-! ## One token -/

/-- A token cut off a text, with the characters it took and the rest of the text. -/
structure Lexeme where
  taken : List Char
  token : Token
  rest : List Char

/-- The sign at the start of a text, if there is one. -/
def scanSign (cs : List Char) : List Char × List Char :=
  match cs with
  | [] => ([], [])
  | c :: r => if c = '+' ∨ c = '-' then ([c], r) else ([], cs)

/-- The exponent at the start of a text: a mark, an optional sign and a digit, and what digits
follow. -/
def scanExponent (cs : List Char) : List Char × List Char :=
  match cs with
  | [] => ([], [])
  | mark :: afterMark =>
    let (sign, digits) := scanSign afterMark
    if (mark = 'e' ∨ mark = 'E') ∧ (digits.head?).any Char.isDigit then
      (mark :: sign ++ digits.takeWhile isDigitOrLow, digits.dropWhile isDigitOrLow)
    else ([], cs)

/-- The point and the digits after it at the start of a text. -/
def scanFraction (cs : List Char) : List Char × List Char :=
  match cs with
  | [] => ([], [])
  | c :: r =>
    if c = '.' then (c :: r.takeWhile isDigitOrLow, r.dropWhile isDigitOrLow) else ([], cs)

/-- The decimal number at the start of a text: digits, then a fraction and an exponent if there
are any. A letter `j` right after it makes it imaginary. -/
def scanDecimal (cs : List Char) : Lexeme :=
  let whole := cs.takeWhile isDigitOrLow
  let (fraction, afterFraction) := scanFraction (cs.dropWhile isDigitOrLow)
  let (exponent, rest) := scanExponent afterFraction
  let text := whole ++ (fraction ++ exponent)
  let token :=
    if fraction.isEmpty && exponent.isEmpty then Token.int (String.ofList text)
    else Token.float (String.ofList text)
  match rest with
  | [] => ⟨text, token, []⟩
  | c :: r =>
    if c = 'j' ∨ c = 'J' then ⟨text ++ [c], .imaginary (String.ofList text), r⟩
    else ⟨text, token, c :: r⟩

/-- The number at the start of a text that starts like one. After a zero and the letter of a
base all letters and digits belong to it. -/
def scanNumber (cs : List Char) : Lexeme :=
  match cs with
  | zero :: mark :: r =>
    if zero = '0' ∧ isRadixMark mark then
      let text := zero :: mark :: r.takeWhile isRadixDigit
      ⟨text, .int (String.ofList text), r.dropWhile isRadixDigit⟩
    else scanDecimal cs
  | _ => scanDecimal cs

/-- What a backslash and the character `c` stand for inside a string. An escape that means
nothing stands for itself. -/
def unescaped (c : Char) : List Char :=
  if c = 'n' then ['\n']
  else if c = 't' then ['\t']
  else if c = 'r' then ['\r']
  else if c = '0' then ['\x00']
  else if c = '\\' ∨ c = '\'' ∨ c = '"' then [c]
  else ['\\', c]

/-- The inside of a string up to the closing quote: the characters taken, the quote among
them, the contents they stand for, and the rest. -/
def scanString? (quote : Char) : List Char → Option (List Char × List Char × List Char)
  | [] => none
  | c :: cs =>
    if c = quote then some ([c], [], cs)
    else if c = '\\' then
      match cs with
      | [] => none
      | d :: ds => (scanString? quote ds).map fun (taken, value, rest) =>
          (c :: d :: taken, unescaped d ++ value, rest)
    else (scanString? quote cs).map fun (taken, value, rest) => (c :: taken, c :: value, rest)

/-- The first symbol that the text starts with, and the rest of the text. -/
def scanSymbol? (cs : List Char) : Option (Symbol × List Char) :=
  Symbol.all.findSome? fun s => (afterStart? s.text.toList cs).map (s, ·)

/-- The token a whole word is. -/
def wordToken (word : String) : Token :=
  match Keyword.ofText? word with
  | some k => .keyword k
  | none => if isReservedWord word then .reserved word else .name word

/-- Whether a text that starts with `c` and goes on with `cs` starts with a number. -/
def startsNumber (c : Char) (cs : List Char) : Bool :=
  c.isDigit || (c == '.' && (cs.head?).any Char.isDigit)

/-- The token at the start of the text `c :: cs`. -/
def scanToken (c : Char) (cs : List Char) : Lexeme :=
  if startsNumber c cs then scanNumber (c :: cs)
  else if c = '\'' ∨ c = '"' then
    match scanString? c cs with
    | some (taken, value, rest) => ⟨c :: taken, .str (String.ofList value), rest⟩
    | none => ⟨c :: cs, .unterminated, []⟩
  else
    match scanSymbol? (c :: cs) with
    | some (s, rest) => ⟨s.text.toList, .symbol s, rest⟩
    | none =>
      if isNameStart c then
        let word := c :: cs.takeWhile isNameContinue
        ⟨word, wordToken (String.ofList word), cs.dropWhile isNameContinue⟩
      else ⟨[c], .invalid c, cs⟩

/-! ## What is taken and what is left -/

theorem scanSign_append (cs : List Char) : (scanSign cs).1 ++ (scanSign cs).2 = cs := by
  unfold scanSign
  split
  · rfl
  · split <;> simp

theorem scanExponent_append (cs : List Char) : (scanExponent cs).1 ++ (scanExponent cs).2 = cs := by
  unfold scanExponent
  split
  · rfl
  · next mark r =>
    have hs := scanSign_append r
    simp only
    split <;> simp [hs]

theorem scanFraction_append (cs : List Char) : (scanFraction cs).1 ++ (scanFraction cs).2 = cs := by
  unfold scanFraction
  split
  · rfl
  · split <;> simp

theorem scanDecimal_append (cs : List Char) :
    (scanDecimal cs).taken ++ (scanDecimal cs).rest = cs := by
  have hf := scanFraction_append (cs.dropWhile isDigitOrLow)
  have he := scanExponent_append (scanFraction (cs.dropWhile isDigitOrLow)).2
  have hw := List.takeWhile_append_dropWhile (p := isDigitOrLow) (l := cs)
  simp only [scanDecimal]
  split
  · next h => rw [h] at he; simp_all
  · next h =>
    rw [h] at he
    split <;> simp_all

theorem scanNumber_append (cs : List Char) :
    (scanNumber cs).taken ++ (scanNumber cs).rest = cs := by
  unfold scanNumber
  split
  · split
    · simp
    · exact scanDecimal_append _
  · exact scanDecimal_append _

theorem scanString?_append {quote : Char} {cs taken value rest : List Char}
    (h : scanString? quote cs = some (taken, value, rest)) : taken ++ rest = cs := by
  fun_induction scanString? quote cs generalizing taken value rest with
  | case1 => simp at h
  | case2 cs =>
    obtain ⟨rfl, -, rfl⟩ : [quote] = taken ∧ [] = value ∧ cs = rest := by simpa using h
    rfl
  | case3 => simp at h
  | case4 d ds _ ih =>
    obtain ⟨⟨t, v, r⟩, hs, heq⟩ := Option.map_eq_some_iff.1 h
    obtain ⟨rfl, -, rfl⟩ : '\\' :: d :: t = taken ∧ unescaped d ++ v = value ∧ r = rest := by
      simpa using heq
    simp [ih hs]
  | case5 c cs _ _ ih =>
    obtain ⟨⟨t, v, r⟩, hs, heq⟩ := Option.map_eq_some_iff.1 h
    obtain ⟨rfl, -, rfl⟩ : c :: t = taken ∧ c :: v = value ∧ r = rest := by simpa using heq
    simp [ih hs]

theorem scanSymbol?_append {cs rest : List Char} {s : Symbol}
    (h : scanSymbol? cs = some (s, rest)) : s.text.toList ++ rest = cs := by
  obtain ⟨t, -, ht⟩ := List.exists_of_findSome?_eq_some h
  obtain ⟨r, hr, heq⟩ := Option.map_eq_some_iff.1 ht
  obtain ⟨rfl, rfl⟩ := Prod.mk.injEq .. ▸ heq
  exact (afterStart?_eq_some.1 hr).symm

/-- The characters a token takes and the rest make up the text. -/
theorem scanToken_append (c : Char) (cs : List Char) :
    (scanToken c cs).taken ++ (scanToken c cs).rest = c :: cs := by
  unfold scanToken
  split
  · exact scanNumber_append _
  split
  · split
    · next h => simp [scanString?_append h]
    · simp
  split
  · next h => simpa using scanSymbol?_append h
  · split <;> simp

theorem scanDecimal_taken_ne_nil {c : Char} {cs : List Char} (h : startsNumber c cs = true) :
    (scanDecimal (c :: cs)).taken ≠ [] := by
  have hne : (c :: cs).takeWhile isDigitOrLow ++
      ((scanFraction ((c :: cs).dropWhile isDigitOrLow)).1 ++
        (scanExponent (scanFraction ((c :: cs).dropWhile isDigitOrLow)).2).1) ≠ [] := by
    by_cases hd : isDigitOrLow c = true
    · simp [hd]
    · have hdot : c = '.' := by
        simp only [startsNumber, Bool.or_eq_true, Bool.and_eq_true, beq_iff_eq] at h
        rcases h with h | h
        · simp [isDigitOrLow, h] at hd
        · exact h.1
      subst hdot
      simp [scanFraction, isDigitOrLow]
  simp only [scanDecimal]
  split
  · exact hne
  · split <;> simp_all

theorem scanNumber_taken_ne_nil {c : Char} {cs : List Char} (h : startsNumber c cs = true) :
    (scanNumber (c :: cs)).taken ≠ [] := by
  unfold scanNumber
  split
  · split
    · simp
    · exact scanDecimal_taken_ne_nil h
  · exact scanDecimal_taken_ne_nil h

/-- Every token takes something. -/
theorem scanToken_taken_ne_nil (c : Char) (cs : List Char) : (scanToken c cs).taken ≠ [] := by
  unfold scanToken
  split
  · next h => exact scanNumber_taken_ne_nil h
  split
  · split <;> simp
  split
  · next s _ _ =>
    have table : ∀ s ∈ Symbol.all, s.text.toList ≠ [] := by decide
    exact table s (by cases s <;> decide)
  · split <;> simp

/-- What is left after a token is shorter. -/
theorem scanToken_rest_lt (c : Char) (cs : List Char) :
    (scanToken c cs).rest.length < cs.length + 1 := by
  have happ := congrArg List.length (scanToken_append c cs)
  have hpos := List.length_pos_iff.2 (scanToken_taken_ne_nil c cs)
  simp only [List.length_append, List.length_cons] at happ
  omega

/-! ## All tokens -/

/-- The tokens of the text `cs`, which stands at offset `pos` of the source. -/
def tokensFrom (pos : Nat) (cs : List Char) : List Located :=
  match _h : skipBlanks false cs with
  | (_, []) => []
  | (skipped, c :: rest) =>
    let lexeme := scanToken c rest
    let start := pos + byteLength skipped
    let stop := start + byteLength lexeme.taken
    ⟨start, stop, lexeme.token⟩ :: tokensFrom stop lexeme.rest
termination_by cs.length
decreasing_by
  have hskip := congrArg List.length (skipBlanks_append false cs)
  have hrest := scanToken_rest_lt c rest
  rw [_h, List.length_append, List.length_cons] at hskip
  omega

/-- The tokens of a source. -/
def tokens (source : String) : List Located :=
  tokensFrom 0 source.toList

end ExprLang
