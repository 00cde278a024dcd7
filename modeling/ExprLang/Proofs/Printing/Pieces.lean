import ExprLang.Proofs.Printing.Lexing

/-!
# Texts in pieces

A printed text is put together from pieces, and its tokens are those of the pieces, one piece
after the other: `Piece dot text ts` says that the text is cut into the tokens `ts` whatever comes
after it, as long as that is something which comes after an expression (`Stops`). Only an integer
literal does not stand before a dot.
-/

namespace ExprLang

/-! ## What comes after -/

/-- The characters that come after an expression. -/
def separators : List Char :=
  [' ', ',', ':', '(', ')', '[', ']', '\x7d']

/-- Whether a text may come after an expression, an attribute only with `dot`. -/
def Stops (dot : Bool) (rest : List Char) : Prop :=
  ∀ c ∈ rest.head?, c ∈ separators ∨ dot = true ∧ c = '.'

variable {dot dot' : Bool} {text text' rest : List Char} {ts us : List Token}

theorem Stops.nil : Stops dot [] := by
  simp [Stops]

theorem Stops.cons {c : Char} (h : c ∈ separators) : Stops dot (c :: rest) := by
  simp [Stops, h]

/-- A point stops what may stand in front of one. -/
theorem Stops.point : Stops true ('.' :: rest) := by
  simp [Stops]

theorem Stops.mono (h : Stops dot rest) (hdot : dot = true → dot' = true) : Stops dot' rest :=
  fun c hc => (h c hc).imp_right (.imp_left hdot)

/-- A text that stops another continues no name. -/
theorem Stops.not_continues (h : Stops dot rest) :
    ∀ c ∈ rest.head?, isNameContinue c = false := by
  have table : separators.all (!isNameContinue ·) = true := by decide
  intro c hc
  rcases h c hc with hc | ⟨-, rfl⟩
  · simpa using List.all_eq_true.1 table c hc
  · decide

theorem Stops.isDigitOrLow (h : Stops dot rest) : ∀ c ∈ rest.head?, isDigitOrLow c = false :=
  fun c hc => isDigitOrLow_eq_false (h.not_continues c hc)

theorem Stops.isDigit (h : Stops dot rest) : ∀ c ∈ rest.head?, c.isDigit = false := by
  intro c hc
  have hlow := h.isDigitOrLow c hc
  simp only [ExprLang.isDigitOrLow, Bool.or_eq_false_iff] at hlow
  exact hlow.1

theorem Stops.endsInt (h : Stops false rest) : ∀ c ∈ rest.head?, endsInt c = true := by
  have table : separators.all ExprLang.endsInt = true := by decide
  intro c hc
  rcases h c hc with hc | ⟨hdot, -⟩
  · exact List.all_eq_true.1 table c hc
  · exact absurd hdot (by decide)

/-- Characters with which no symbol goes on. -/
def opensText (c : Char) : Bool :=
  !(['*', '/', '<', '>', '='].contains c)

/-- What opens a text makes no symbol longer, but for a digit behind a dot. -/
theorem Symbol.extends_eq_false {s : Symbol} {c : Char} (hc : opensText c = true)
    (hdot : s = .dot → c.isDigit = false) : s.extends c = false := by
  have table : ∀ s ∈ Symbol.all, ∀ t ∈ Symbol.all,
      t.text.toList.length = s.text.toList.length + 1 → s.text.toList <+: t.text.toList →
      t.text.toList.getLast?.all (!opensText ·) = true := by
    decide +kernel
  simp only [Symbol.extends, Bool.or_eq_false_iff, List.any_eq_false, decide_eq_true_eq]
  refine ⟨fun t _ ht => ?_, ?_⟩
  · have hlast := table s s.mem_all t t.mem_all (by simp [ht]) ⟨[c], ht.symm⟩
    simp [ht, hc] at hlast
  · cases hs : s == Symbol.dot with
    | false => rfl
    | true => simpa using hdot (by simpa using hs)

theorem Stops.opensText (h : Stops dot rest) : ∀ c ∈ rest.head?, opensText c = true := by
  have table : separators.all ExprLang.opensText = true := by decide
  intro c hc
  rcases h c hc with hc | ⟨-, rfl⟩
  · exact List.all_eq_true.1 table c hc
  · decide

/-! ## Single characters -/

/-- A symbol other than the dot, in front of a text with which no symbol goes on. -/
theorem lex_symbol_append {s : Symbol} (hdot : s ≠ .dot)
    (h : ∀ c ∈ rest.head?, opensText c = true) :
    lex (s.text.toList ++ rest) = .symbol s :: lex rest :=
  lex_symbol fun c hc => Symbol.extends_eq_false (h c hc) fun hs => absurd hs hdot

/-- A symbol that no longer one begins with. -/
theorem lex_symbol_single {s : Symbol} (hdot : s ≠ .dot)
    (h : ∀ t ∈ Symbol.all, s.text.toList <+: t.text.toList → t = s) (rest : List Char) :
    lex (s.text.toList ++ rest) = .symbol s :: lex rest := by
  refine lex_symbol fun c _ => ?_
  simp only [Symbol.extends, Bool.or_eq_false_iff, List.any_eq_false, decide_eq_true_eq]
  refine ⟨fun t _ ht => ?_, by simpa using fun hs => absurd hs hdot⟩
  obtain rfl := h t t.mem_all ⟨[c], ht.symm⟩
  simp at ht

@[simp] theorem lex_openParen (rest : List Char) :
    lex ('(' :: rest) = .symbol .openParen :: lex rest :=
  lex_symbol_single (s := .openParen) (by decide) (by decide) rest

@[simp] theorem lex_closeParen (rest : List Char) :
    lex (')' :: rest) = .symbol .closeParen :: lex rest :=
  lex_symbol_single (s := .closeParen) (by decide) (by decide) rest

@[simp] theorem lex_openBracket (rest : List Char) :
    lex ('[' :: rest) = .symbol .openBracket :: lex rest :=
  lex_symbol_single (s := .openBracket) (by decide) (by decide) rest

@[simp] theorem lex_closeBracket (rest : List Char) :
    lex (']' :: rest) = .symbol .closeBracket :: lex rest :=
  lex_symbol_single (s := .closeBracket) (by decide) (by decide) rest

@[simp] theorem lex_openBrace (rest : List Char) :
    lex ('\x7b' :: rest) = .symbol .openBrace :: lex rest :=
  lex_symbol_single (s := .openBrace) (by decide) (by decide) rest

@[simp] theorem lex_closeBrace (rest : List Char) :
    lex ('\x7d' :: rest) = .symbol .closeBrace :: lex rest :=
  lex_symbol_single (s := .closeBrace) (by decide) (by decide) rest

@[simp] theorem lex_comma (rest : List Char) : lex (',' :: rest) = .symbol .comma :: lex rest :=
  lex_symbol_single (s := .comma) (by decide) (by decide) rest

/-- An equals sign in front of what opens a text is not half of `==`. -/
theorem lex_assign (h : ∀ c ∈ rest.head?, opensText c = true) :
    lex ('=' :: rest) = .symbol .assign :: lex rest :=
  lex_symbol_append (s := .assign) (by decide) h

/-! ## Pieces -/

/-- A text is cut into these tokens, whatever comes after it. -/
def Piece (dot : Bool) (text : List Char) (ts : List Token) : Prop :=
  ∀ rest, Stops dot rest → lex (text ++ rest) = ts ++ lex rest

/-- A piece alone is lexed as its tokens. -/
theorem Piece.lex_eq (h : Piece dot text ts) : lex text = ts := by
  simpa using h [] .nil

/-- A piece that may stand in front of a dot may stand elsewhere. -/
theorem Piece.mono (h : Piece dot text ts) (hdot : dot' = true → dot = true) :
    Piece dot' text ts :=
  fun rest hrest => h rest (hrest.mono hdot)

theorem Piece.nil : Piece dot [] [] :=
  fun rest _ => by simp

/-- Two pieces make one if the second stops the first. -/
theorem Piece.append (h : Piece dot text ts) (h' : Piece dot' text' us)
    (hstop : ∀ rest, Stops dot' rest → Stops dot (text' ++ rest)) :
    Piece dot' (text ++ text') (ts ++ us) := by
  intro rest hrest
  rw [List.append_assoc, h _ (hstop rest hrest), h' rest hrest, List.append_assoc]

/-- A name, and what it is told by: it is spelt like one and means nothing else. -/
structure IsName (name : String) : Prop where
  word : IsWord name.toList
  free : wordToken name = .name name

/-- A word is one token, by its spelling. -/
theorem IsWord.piece {word : String} (h : IsWord word.toList) :
    Piece dot word.toList [wordToken word] := by
  intro rest hrest
  rw [lex_word h hrest.not_continues, String.ofList_toList]
  rfl

theorem IsName.piece {name : String} (h : IsName name) : Piece dot name.toList [.name name] := by
  rw [← h.free]
  exact h.word.piece

/-- A text between two characters that are symbols by themselves. -/
theorem Piece.enclosed {o c : Symbol} {x y : Char}
    (ho : ∀ rest, lex (x :: rest) = .symbol o :: lex rest)
    (hc : ∀ rest, lex (y :: rest) = .symbol c :: lex rest) (hy : y ∈ separators)
    (h : Piece dot text ts) :
    Piece dot' (x :: (text ++ [y])) (.symbol o :: (ts ++ [.symbol c])) := by
  intro rest _
  have hclose : Stops dot (y :: rest) := .cons hy
  simp [ho, hc, h _ hclose]

theorem Piece.parens (h : Piece dot text ts) :
    Piece dot' ('(' :: (text ++ [')'])) (.symbol .openParen :: (ts ++ [.symbol .closeParen])) :=
  .enclosed lex_openParen lex_closeParen (by decide) h

theorem Piece.squares (h : Piece dot text ts) :
    Piece dot' ('[' :: (text ++ [']'])) (.symbol .openBracket :: (ts ++ [.symbol .closeBracket])) :=
  .enclosed lex_openBracket lex_closeBracket (by decide) h

theorem Piece.braces (h : Piece dot text ts) :
    Piece dot' ('\x7b' :: (text ++ ['\x7d']))
      (.symbol .openBrace :: (ts ++ [.symbol .closeBrace])) :=
  .enclosed lex_openBrace lex_closeBrace (by decide) h

end ExprLang
