import ExprLang.Proofs.Parsing.Exactness

/-!
# Texts that are cut into known tokens

`lex` are the tokens of a text without their places, and each lemma here cuts one token off the
front: a blank, a symbol that no longer one begins with, a word that is not gone on with, a quoted
string. Which characters may follow is all that the next token has to do with it (`Stops`,
`Symbol.extends`, `endsInt`).
-/

namespace ExprLang

/-! ## Tokens -/

/-- The tokens of a text. -/
def lex (cs : List Char) : List Token :=
  (tokensFrom 0 cs).map (·.token)

/-- Where a text begins makes no difference to its tokens. -/
theorem map_token_tokensFrom (pos : Nat) (cs : List Char) :
    (tokensFrom pos cs).map (·.token) = lex cs := by
  have hany : ∀ pos', (tokensFrom pos cs).map (·.token) = (tokensFrom pos' cs).map (·.token) := by
    intro pos'
    fun_induction tokensFrom pos cs generalizing pos' with
    | case1 pos cs skipped hskip =>
      conv => rhs; rw [tokensFrom]
      split <;> simp_all
    | case2 pos cs skipped c rest hskip lexeme start stop ih =>
      conv => rhs; rw [tokensFrom]
      split
      · next heq => simp [hskip] at heq
      · next skipped' c' rest' heq =>
        obtain ⟨rfl, rfl, rfl⟩ : skipped = skipped' ∧ c = c' ∧ rest = rest' := by
          simpa [hskip] using heq
        simp only [List.map_cons, List.cons.injEq]
        exact ⟨rfl, ih _⟩
  exact hany 0

@[simp] theorem tokensFrom_nil (pos : Nat) : tokensFrom pos [] = [] := by
  rw [tokensFrom]
  rfl

@[simp] theorem lex_nil : lex [] = [] := by
  simp [lex]

/-- A blank moves the place, and no more. -/
theorem tokensFrom_blank {c : Char} (hc : isBlank c = true) (pos : Nat) (cs : List Char) :
    tokensFrom pos (c :: cs) = tokensFrom (pos + c.utf8Size) cs := by
  have hhash : (c == '#') = false := by
    simp only [beq_eq_false_iff_ne, ne_eq]
    rintro rfl
    exact absurd hc (by decide)
  have hskip : skipBlanks false (c :: cs)
      = (c :: (skipBlanks false cs).1, (skipBlanks false cs).2) := by
    simp [skipBlanks, hc, hhash]
  have hsize : ∀ skipped, byteLength (c :: skipped) = c.utf8Size + byteLength skipped :=
    fun _ => rfl
  rw [tokensFrom, tokensFrom]
  split <;> split <;> simp_all [Nat.add_assoc]

theorem lex_blank {c : Char} (hc : isBlank c = true) (cs : List Char) :
    lex (c :: cs) = lex cs := by
  rw [lex, tokensFrom_blank hc, map_token_tokensFrom]

@[simp] theorem lex_space (cs : List Char) : lex (' ' :: cs) = lex cs :=
  lex_blank (by decide) cs

/-- The first token of a text that starts with neither a blank nor a comment stands where the text
does, and the others behind what it takes. -/
theorem tokensFrom_cons {c : Char} {cs : List Char} {lexeme : Lexeme} (hblank : isBlank c = false)
    (hhash : c ≠ '#') (hscan : scanToken c cs = lexeme) (pos : Nat) :
    tokensFrom pos (c :: cs) = ⟨pos, pos + byteLength lexeme.taken, lexeme.token⟩ ::
      tokensFrom (pos + byteLength lexeme.taken) lexeme.rest := by
  have hskip : skipBlanks false (c :: cs) = ([], c :: cs) := by
    simp [skipBlanks, hblank, hhash]
  have hzero : byteLength [] = 0 := rfl
  rw [tokensFrom]
  split <;> simp_all

/-- What is no blank and no comment begins with a token. -/
theorem lex_cons {c : Char} (hblank : isBlank c = false) (hhash : c ≠ '#') (cs : List Char) :
    lex (c :: cs) = (scanToken c cs).token :: lex (scanToken c cs).rest := by
  rw [lex, tokensFrom_cons hblank hhash rfl, List.map_cons, map_token_tokensFrom]

/-! ## Symbols -/

/-- Whether a character after a symbol makes a longer token of it. -/
def Symbol.extends (s : Symbol) (c : Char) : Bool :=
  Symbol.all.any (fun t => t.text.toList = s.text.toList ++ [c]) || (s == .dot && c.isDigit)

/-- The symbols before another in the list of all do not begin it, and are at most one longer. -/
theorem Symbol.earlier_text {s t : Symbol} (h : t ∈ Symbol.all.takeWhile (· != s)) :
    ¬t.text.toList <+: s.text.toList ∧ t.text.toList.length ≤ s.text.toList.length + 1 := by
  have table : ∀ s ∈ Symbol.all, ∀ t ∈ Symbol.all.takeWhile (· != s),
      ¬t.text.toList <+: s.text.toList ∧ t.text.toList.length ≤ s.text.toList.length + 1 := by
    decide +kernel
  exact table s s.mem_all t h

/-- A symbol is cut off where no longer token begins. -/
theorem scanSymbol?_append_rest {s : Symbol} {rest : List Char}
    (h : ∀ c ∈ rest.head?, s.extends c = false) :
    scanSymbol? (s.text.toList ++ rest) = some (s, rest) := by
  obtain ⟨ls, hls⟩ : ∃ ls, Symbol.all = Symbol.all.takeWhile (· != s) ++ s :: ls := by
    have table : ∀ s ∈ Symbol.all, (Symbol.all.dropWhile (· != s)).head? = some s := by decide
    obtain ⟨ls, hls⟩ := List.head?_eq_some_iff.1 (table s s.mem_all)
    exact ⟨ls, by rw [← hls, List.takeWhile_append_dropWhile]⟩
  refine List.findSome?_eq_some_iff.2 ⟨_, s, ls, hls, ?_, fun t ht => ?_⟩
  · rw [afterStart?_eq_some.2 rfl]
    rfl
  · obtain ⟨hstart, hlength⟩ := Symbol.earlier_text ht
    rw [Option.map_eq_none_iff, Option.eq_none_iff_forall_ne_some]
    intro r hr
    rcases List.append_eq_append_iff.1 (afterStart?_eq_some.1 hr) with
      ⟨more, ht', hrest⟩ | ⟨more, hs, -⟩
    · match more with
      | [] => exact hstart ⟨[], by simpa using ht'⟩
      | [c] =>
        have hc := h c (by simp [hrest])
        simp only [Symbol.extends, Bool.or_eq_false_iff, List.any_eq_false] at hc
        exact hc.1 t t.mem_all (by simpa using ht')
      | c :: d :: more =>
        rw [ht'] at hlength
        simp at hlength
    · exact hstart ⟨more, hs.symm⟩

theorem Symbol.text_first (s : Symbol) : ∃ c cs, s.text.toList = c :: cs ∧ isBlank c = false ∧
    c ≠ '#' ∧ c.isDigit = false ∧ c ≠ '\'' ∧ c ≠ '"' ∧ (c = '.' → s = .dot) := by
  cases s <;> exact ⟨_, _, rfl, by decide, by decide, by decide, by decide, by decide, by decide⟩

/-- A symbol is lexed whole if the next character does not make it a longer one. -/
theorem tokensFrom_symbol {s : Symbol} {rest : List Char}
    (h : ∀ c ∈ rest.head?, s.extends c = false) (pos : Nat) :
    tokensFrom pos (s.text.toList ++ rest) = ⟨pos, pos + byteLength s.text.toList, .symbol s⟩ ::
      tokensFrom (pos + byteLength s.text.toList) rest := by
  have hscan := scanSymbol?_append_rest h
  obtain ⟨c, cs, heq, hblank, hhash, hdigit, hquote, hdouble, hdot⟩ := s.text_first
  rw [heq, List.cons_append] at hscan ⊢
  have hnumber : startsNumber c (cs ++ rest) = false := by
    by_cases hc : c = '.'
    · obtain rfl := hdot hc
      obtain rfl : cs = [] := by
        have : Symbol.dot.text.toList = ['.'] := rfl
        simp_all
      cases hrest : rest.head? with
      | none => simp [startsNumber, hdigit, hrest]
      | some d =>
        have hd := h d (by simp [hrest])
        simp only [Symbol.extends, beq_self_eq_true, Bool.true_and, Bool.or_eq_false_iff] at hd
        simp [startsNumber, hdigit, hrest, hd.2]
    · simp [startsNumber, hdigit, hc]
  have htoken : scanToken c (cs ++ rest) = ⟨c :: cs, .symbol s, rest⟩ := by
    simp [scanToken, hnumber, hquote, hdouble, hscan, heq]
  exact tokensFrom_cons hblank hhash htoken pos

/-- A symbol is lexed whole if the next character does not make it a longer one. -/
theorem lex_symbol {s : Symbol} {rest : List Char} (h : ∀ c ∈ rest.head?, s.extends c = false) :
    lex (s.text.toList ++ rest) = .symbol s :: lex rest := by
  rw [lex, tokensFrom_symbol h, List.map_cons, map_token_tokensFrom]

/-! ## Words -/

/-- A run that ends where another text begins. -/
theorem takeWhile_append_stop {p : Char → Bool} {cs rest : List Char} (h : ∀ c ∈ cs, p c = true)
    (hrest : ∀ c ∈ rest.head?, p c = false) : (cs ++ rest).takeWhile p = cs := by
  rw [List.takeWhile_append_of_pos h]
  cases rest with
  | nil => simp
  | cons c rest => simp [hrest c rfl]

theorem dropWhile_append_stop {p : Char → Bool} {cs rest : List Char} (h : ∀ c ∈ cs, p c = true)
    (hrest : ∀ c ∈ rest.head?, p c = false) : (cs ++ rest).dropWhile p = rest := by
  rw [List.dropWhile_append_of_pos h]
  cases rest with
  | nil => rfl
  | cons c rest => simp [hrest c rfl]

theorem isDigit_ascii {c : Char} (h : c.isDigit = true) : c.toNat < 128 := by
  simp only [Char.isDigit, Bool.and_eq_true, decide_eq_true_eq] at h
  have := h.2
  simp only [UInt32.le_iff_toNat_le] at this
  exact Nat.lt_of_le_of_lt this (by decide)

/-- No name begins with a digit. -/
theorem isNameStart_of_isDigit {c : Char} (h : c.isDigit = true) : isNameStart c = false := by
  have table : ∀ n < 128, (Char.ofNat n).isDigit = true → isNameStart (Char.ofNat n) = false := by
    decide
  have hc := table c.toNat (isDigit_ascii h)
  rw [Char.ofNat_toNat] at hc
  exact hc h

/-- What starts a name starts nothing else. -/
theorem scanToken_word {c : Char} {cs rest : List Char} (hc : isNameStart c = true)
    (hcs : ∀ c ∈ cs, isNameContinue c = true)
    (hrest : ∀ c ∈ rest.head?, isNameContinue c = false) :
    scanToken c (cs ++ rest) = ⟨c :: cs, wordToken (String.ofList (c :: cs)), rest⟩ := by
  have hne : ∀ d, isNameStart d = false → c ≠ d := by
    rintro d hd rfl
    simp [hd] at hc
  have hdigit : c.isDigit = false := by
    cases h : c.isDigit with
    | false => rfl
    | true => simp [isNameStart_of_isDigit h] at hc
  have hsymbol : scanSymbol? (c :: (cs ++ rest)) = none := by
    have table : ∀ s ∈ Symbol.all, s.text.toList.head?.all (!isNameStart ·) = true := by decide
    refine List.findSome?_eq_none_iff.2 fun s hs => ?_
    rw [Option.map_eq_none_iff, Option.eq_none_iff_forall_ne_some]
    intro r hr
    obtain ⟨d, ds, heq, -⟩ := s.text_first
    have happ := afterStart?_eq_some.1 hr
    rw [heq, List.cons_append] at happ
    have hd : isNameStart d = false := by simpa [heq] using table s hs
    exact hne d hd (List.cons.inj happ).1
  have hdot : c ≠ '.' := hne _ (by decide)
  have hquote : c ≠ '\'' := hne _ (by decide)
  have hdouble : c ≠ '"' := hne _ (by decide)
  simp [scanToken, startsNumber, hdigit, hdot, hquote, hdouble, hsymbol, hc,
    takeWhile_append_stop hcs hrest, dropWhile_append_stop hcs hrest]

theorem isBlank_of_isNameContinue {c : Char} (h : isNameContinue c = true) : isBlank c = false := by
  cases hb : isBlank c with
  | false => rfl
  | true =>
    have hlow : c ≠ '_' := by
      rintro rfl
      exact absurd hb (by decide)
    simp [isNameContinue, isLetter_of_isBlank hb, isNumeral_of_isBlank hb, hlow] at h

/-- What may begin a name may go on with it. -/
theorem isNameContinue_of_isNameStart {c : Char} (h : isNameStart c = true) :
    isNameContinue c = true := by
  simp only [isNameStart, isNameContinue, Bool.or_eq_true] at h ⊢
  exact h.imp_left .inl

/-- Whether a word is spelt like a name. -/
structure IsWord (word : List Char) : Prop where
  starts : ∀ c ∈ word.head?, isNameStart c = true
  continues : ∀ c ∈ word, isNameContinue c = true
  ne_nil : word ≠ []

/-- A word is lexed whole if no character of names follows. -/
theorem tokensFrom_word {word rest : List Char} (h : IsWord word)
    (hrest : ∀ c ∈ rest.head?, isNameContinue c = false) (pos : Nat) :
    tokensFrom pos (word ++ rest)
      = ⟨pos, pos + byteLength word, wordToken (String.ofList word)⟩ ::
        tokensFrom (pos + byteLength word) rest := by
  obtain ⟨c, cs, rfl⟩ := List.exists_cons_of_ne_nil h.ne_nil
  have hc := h.starts c rfl
  have hhash : c ≠ '#' := by
    rintro rfl
    exact absurd hc (by decide)
  exact tokensFrom_cons (isBlank_of_isNameContinue (isNameContinue_of_isNameStart hc)) hhash
    (scanToken_word hc (fun c hcs => h.continues c (List.mem_cons_of_mem _ hcs)) hrest) pos

/-- A word is lexed whole if no character of names follows. -/
theorem lex_word {word rest : List Char} (h : IsWord word)
    (hrest : ∀ c ∈ rest.head?, isNameContinue c = false) :
    lex (word ++ rest) = wordToken (String.ofList word) :: lex rest := by
  rw [lex, tokensFrom_word h hrest, List.map_cons, map_token_tokensFrom]

/-! ## Ends of numbers -/

/-- Characters at which a decimal integer ends. -/
def endsInt (c : Char) : Bool :=
  !isNameContinue c && c != '.'

/-- What ends an integer does not go on with a name. -/
theorem isNameContinue_of_endsInt {c : Char} (h : endsInt c = true) : isNameContinue c = false := by
  simp only [endsInt, Bool.and_eq_true, Bool.not_eq_true'] at h
  exact h.1

theorem endsInt_ne {c d : Char} (hc : endsInt c = true) (hd : endsInt d = false) : c ≠ d := by
  rintro rfl
  simp [hc] at hd

theorem isNameContinue_of_isDigitOrLow {c : Char} (h : isDigitOrLow c = true) :
    isNameContinue c = true := by
  simp only [isDigitOrLow, isNameContinue, Bool.or_eq_true] at h ⊢
  refine h.imp_left fun hdigit => .inr ?_
  rw [isNumeral_of_ascii (isDigit_ascii hdigit)]
  exact hdigit

/-- What ends a name ends a run of digits. -/
theorem isDigitOrLow_eq_false {c : Char} (h : isNameContinue c = false) :
    isDigitOrLow c = false := by
  cases hc : isDigitOrLow c with
  | false => rfl
  | true => simp [isNameContinue_of_isDigitOrLow hc] at h

theorem isRadixMark_eq_false {c : Char} (h : isNameContinue c = false) :
    isRadixMark c = false := by
  have table : ['x', 'X', 'o', 'O', 'b', 'B'].all isNameContinue = true := by decide
  simp only [isRadixMark, List.contains_eq_mem, decide_eq_false_iff_not]
  intro hc
  simp [List.all_eq_true.1 table c hc] at h

/-! ## Strings -/

/-- Control characters that cannot be written inside quotes. -/
def isUnwritable (c : Char) : Bool :=
  isControl c && c != '\n' && c != '\t' && c != '\r'

/-- What is read where a character was written inside quotes. The escape of a character that
cannot be written means nothing, and so stands for itself. -/
def reread (c : Char) : List Char :=
  if isUnwritable c then ['\\', 'x', hexDigit (c.toNat / 16), hexDigit (c.toNat % 16)] else [c]

/-- A character that is neither the quote nor a backslash stands for itself. -/
theorem scanString?_plain {quote c : Char} {cs taken value rest : List Char} (hquote : c ≠ quote)
    (hslash : c ≠ '\\') (h : scanString? quote cs = some (taken, value, rest)) :
    scanString? quote (c :: cs) = some (c :: taken, c :: value, rest) := by
  rw [scanString?.eq_def]
  simp [hquote, hslash, h]

/-- A backslash takes the next character with it. -/
theorem scanString?_slash {quote d : Char} {cs taken value rest : List Char}
    (hquote : quote ≠ '\\') (h : scanString? quote cs = some (taken, value, rest)) :
    scanString? quote ('\\' :: d :: cs) =
      some ('\\' :: d :: taken, unescaped d ++ value, rest) := by
  rw [scanString?.eq_def]
  simp [hquote.symm, h]

/-- No hexadecimal digit ends a string or begins an escape. -/
theorem hexDigit_ne_quote {n : Nat} (hn : n < 16) :
    hexDigit n ≠ '\'' ∧ hexDigit n ≠ '"' ∧ hexDigit n ≠ '\\' := by
  have table : ∀ n < 16, hexDigit n ≠ '\'' ∧ hexDigit n ≠ '"' ∧ hexDigit n ≠ '\\' := by decide
  exact table n hn

/-- The digits of a control character are read as they stand. -/
theorem scanString?_hexDigit {quote : Char} {n : Nat} {cs taken value rest : List Char}
    (hquote : quote = '\'' ∨ quote = '"') (hn : n < 16)
    (h : scanString? quote cs = some (taken, value, rest)) :
    scanString? quote (hexDigit n :: cs) =
      some (hexDigit n :: taken, hexDigit n :: value, rest) := by
  obtain ⟨hsingle, hdouble, hslash⟩ := hexDigit_ne_quote hn
  exact scanString?_plain (by rcases hquote with rfl | rfl <;> assumption) hslash h

/-- Control characters are told by two digits. -/
theorem isControl_lt {c : Char} (h : isControl c = true) : c.toNat < 160 := by
  simp only [isControl, Bool.or_eq_true, Bool.and_eq_true, decide_eq_true_eq] at h
  omega

/-- A character that is not unwritable is read as itself. -/
theorem reread_of_writable {c : Char} (h : isUnwritable c = false) : reread c = [c] := by
  simp [reread, h]

/-- One escaped character is read as its `reread`. -/
theorem scanString?_escaped {quote c : Char} {cs taken value rest : List Char}
    (hquote : quote = '\'' ∨ quote = '"')
    (h : scanString? quote cs = some (taken, value, rest)) :
    scanString? quote (escaped quote c ++ cs)
      = some (escaped quote c ++ taken, reread c ++ value, rest) := by
  have hslash : quote ≠ '\\' := by rcases hquote with rfl | rfl <;> decide
  unfold escaped
  split
  · next hc => subst hc; exact scanString?_slash hslash h
  split
  · next hc => subst hc; exact scanString?_slash hslash h
  split
  · next hc => subst hc; exact scanString?_slash hslash h
  split
  · next hc => subst hc; exact scanString?_slash hslash h
  split
  · next hcq =>
    have hun : unescaped c = reread c := by
      rcases hquote with hq | hq <;> subst hcq <;> subst hq <;> rfl
    have hstep := scanString?_slash (d := c) hslash h
    rwa [hun] at hstep
  split
  · next hnewline htab hreturn _ hcontrol =>
    have hunwritable : isUnwritable c = true := by
      simp [isUnwritable, hcontrol, hnewline, htab, hreturn]
    have hlt := isControl_lt hcontrol
    have hdigits := scanString?_hexDigit (n := c.toNat / 16) hquote (by omega)
      (scanString?_hexDigit (n := c.toNat % 16) hquote (Nat.mod_lt _ (by decide)) h)
    simp only [reread, hunwritable, if_true]
    exact scanString?_slash (d := 'x') hslash hdigits
  · next hne _ _ _ hcq hcontrol =>
    rw [reread_of_writable (by simp [isUnwritable, hcontrol])]
    exact scanString?_plain hcq hne h

/-- All of a quoted text is read, up to its closing quote. -/
theorem scanString?_quoted {quote : Char} (hquote : quote = '\'' ∨ quote = '"')
    (cs rest : List Char) :
    scanString? quote (cs.flatMap (escaped quote) ++ quote :: rest)
      = some (cs.flatMap (escaped quote) ++ [quote], cs.flatMap reread, rest) := by
  induction cs with
  | nil =>
    rw [scanString?.eq_def]
    simp
  | cons c cs ih => simpa using scanString?_escaped hquote ih

/-- A text is quoted with one of two quotes. -/
theorem quoteFor_eq (cs : List Char) : quoteFor cs = '\'' ∨ quoteFor cs = '"' := by
  unfold quoteFor
  split <;> simp

/-- A quoted text is one token. -/
theorem scanToken_quoted (cs rest : List Char) :
    scanToken (quoteFor cs) (cs.flatMap (escaped (quoteFor cs)) ++ quoteFor cs :: rest)
      = ⟨quotedChars cs, .str (String.ofList (cs.flatMap reread)), rest⟩ := by
  have hquote := quoteFor_eq cs
  have hnumber : ∀ r, startsNumber (quoteFor cs) r = false := fun r => by
    rcases hquote with hq | hq <;> rw [hq] <;> rfl
  rw [scanToken]
  simp only [hnumber, Bool.false_eq_true, ↓reduceIte, hquote, scanString?_quoted hquote,
    quotedChars, List.cons_append]

theorem quotedChars_append (cs rest : List Char) :
    quotedChars cs ++ rest
      = quoteFor cs :: (cs.flatMap (escaped (quoteFor cs)) ++ quoteFor cs :: rest) := by
  simp [quotedChars]

/-- A string inside quotes is one token. -/
theorem lex_quotedChars (cs rest : List Char) :
    lex (quotedChars cs ++ rest) = .str (String.ofList (cs.flatMap reread)) :: lex rest := by
  have hquote := quoteFor_eq cs
  rw [quotedChars_append, lex_cons (by rcases hquote with hq | hq <;> rw [hq] <;> decide)
    (by rcases hquote with hq | hq <;> rw [hq] <;> decide), scanToken_quoted]

/-- A text without unwritable characters is read as itself. -/
theorem flatMap_reread {cs : List Char} (h : ∀ c ∈ cs, isUnwritable c = false) :
    cs.flatMap reread = cs := by
  induction cs with
  | nil => rfl
  | cons c cs ih =>
    have hrest := ih fun d hd => h d (List.mem_cons_of_mem _ hd)
    rw [List.flatMap_cons, reread_of_writable (h c (by simp)), hrest, List.singleton_append]

end ExprLang
