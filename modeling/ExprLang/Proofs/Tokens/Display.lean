import ExprLang.Proofs.Printing.Written
import ExprLang.Proofs.Tokens.Tiling

/-!
# Tokens that are shown and cut again

`sourceTokens_shown` : the texts of the tokens of a source, with one blank between them, are cut
into the same tokens, as long as none of them is a string. Each token is a piece by itself
(`Piece.shown`) : what it was cut from may have gone on with anything, but a blank stops it at the
same place. For numbers this takes a look at their parts (`Numeral`), as a number is cut in three
steps and each of them may stop early.
-/

namespace ExprLang

variable {rest : List Char}

/-! ## Numbers -/

/-- The text of a number starts with `c` and is cut off as that number, with `rest` behind it. -/
def CutAgain (c : Char) (t : Token) (rest : List Char) : Prop :=
  ∃ ds, t.text.toList = c :: ds ∧ startsNumber c ds = true ∧
    scanNumber (c :: (ds ++ rest)) = ⟨c :: ds, t, rest⟩

/-- A decimal is cut again from its text. -/
theorem scanDecimal_shown {c : Char} {cs : List Char} (h : startsNumber c cs = true)
    (hradix : ¬StartsRadix (c :: cs)) (hrest : ∀ c ∈ rest.head?, endsInt c = true) :
    CutAgain c (scanDecimal (c :: cs)).token rest := by
  obtain ⟨ds, htext, hstarts⟩ := Numeral.text_ofText_cons h
  have hbegins := Numeral.text_ofText_prefix (c :: cs)
  have hne : (Numeral.ofText (c :: cs)).text ≠ [] := by simp [htext]
  rcases Numeral.token_scanDecimal (c :: cs) with htoken | htoken
  · rw [htoken]
    have hmarks : ∀ d ∈ rest.head?, isRadixMark d = false := fun d hd =>
      isRadixMark_eq_false (isNameContinue_of_endsInt (hrest d hd))
    have hscan := scanNumber_of_not_startsRadix (not_startsRadix_append hne hbegins hradix hmarks)
    rw [Numeral.scanDecimal_append _ hrest] at hscan
    refine ⟨ds, ?_, hstarts, ?_⟩
    · rw [Numeral.text_token, String.toList_ofList, htext]
    · rwa [htext, List.cons_append] at hscan
  · rw [htoken]
    have hmarks : ∀ d ∈ ('j' :: rest).head?, isRadixMark d = false := by
      rintro d ⟨⟩
      decide
    have hscan := scanNumber_of_not_startsRadix (not_startsRadix_append hne hbegins hradix hmarks)
    rw [Numeral.scanDecimal_append_letter] at hscan
    refine ⟨ds ++ ['j'], ?_, startsNumber_append hstarts _, ?_⟩
    · simp [Token.text, htext]
    · rw [htext, List.cons_append] at hscan
      simpa [htext] using hscan

theorem scanNumber_shown {c : Char} {cs : List Char} (h : startsNumber c cs = true)
    (hrest : ∀ c ∈ rest.head?, endsInt c = true) :
    CutAgain c (scanNumber (c :: cs)).token rest := by
  by_cases hradix : StartsRadix (c :: cs)
  · obtain ⟨mark, more, heq, hmark⟩ := hradix
    obtain ⟨rfl, rfl⟩ := List.cons.inj heq
    have hdigits : ∀ d ∈ more.takeWhile isRadixDigit, isRadixDigit d = true := fun _ hd =>
      List.all_eq_true.1 List.all_takeWhile _ hd
    have hstop : ∀ d ∈ rest.head?, isRadixDigit d = false := fun d hd =>
      isRadixDigit_eq_false (isNameContinue_of_endsInt (hrest d hd))
    refine ⟨mark :: more.takeWhile isRadixDigit, ?_, rfl, ?_⟩
    · simp [scanNumber, hmark, Token.text]
    · simp [scanNumber, hmark, takeWhile_append_stop hdigits hstop,
        dropWhile_append_stop hdigits hstop]
  · rw [scanNumber_of_not_startsRadix hradix]
    exact scanDecimal_shown h hradix hrest

/-- The text of a number is one token. -/
theorem Piece.number {c : Char} {cs : List Char} (h : startsNumber c cs = true) :
    Piece false (scanNumber (c :: cs)).token.text.toList [(scanNumber (c :: cs)).token] := by
  intro rest hrest
  obtain ⟨ds, htext, hstarts, hscan⟩ := scanNumber_shown h hrest.endsInt
  obtain ⟨hblank, hhash⟩ := isBlank_of_startsNumber h
  rw [htext, List.cons_append, lex_cons hblank hhash, scanToken,
    if_pos (startsNumber_append hstarts rest), hscan]
  rfl

/-! ## Symbols and characters that start no token -/

/-- No symbol is found if none begins the text. -/
theorem scanSymbol?_eq_none_iff {cs : List Char} :
    scanSymbol? cs = none ↔ ∀ s : Symbol, ¬s.text.toList <+: cs := by
  have hnone : ∀ s : Symbol, (afterStart? s.text.toList cs).map (s, ·) = none ↔
      ¬s.text.toList <+: cs := by
    intro s
    rw [Option.map_eq_none_iff, Option.eq_none_iff_forall_ne_some]
    constructor
    · rintro h ⟨rest, happ⟩
      exact h rest (afterStart?_eq_some.2 happ.symm)
    · exact fun h rest hstart => h ⟨rest, (afterStart?_eq_some.1 hstart).symm⟩
  rw [scanSymbol?, List.findSome?_eq_none_iff]
  exact ⟨fun h s => (hnone s).1 (h s s.mem_all), fun h s _ => (hnone s).2 (h s)⟩

/-- A symbol has one character, or a second with which no text begins. -/
theorem Symbol.text_second (s : Symbol) :
    ∃ c, s.text.toList = [c] ∨ ∃ d, s.text.toList = [c, d] ∧ opensText d = false := by
  cases s <;> first
    | exact ⟨_, .inl rfl⟩
    | exact ⟨_, .inr ⟨_, rfl, by decide⟩⟩

theorem Piece.symbol_alone (s : Symbol) : Piece false s.text.toList [.symbol s] := by
  intro rest hrest
  exact lex_symbol fun c hc =>
    Symbol.extends_eq_false (hrest.opensText c hc) fun _ => hrest.isDigit c hc

/-- A character that starts no token starts none in front of a text that stops it. -/
theorem Piece.invalid {c : Char} {cs : List Char} (hblank : isBlank c = false) (hhash : c ≠ '#')
    (hnumber : startsNumber c cs = false) (hquote : ¬(c = '\'' ∨ c = '"'))
    (hsymbol : scanSymbol? (c :: cs) = none) (hname : isNameStart c = false) :
    Piece false [c] [.invalid c] := by
  intro rest hrest
  have hnone := scanSymbol?_eq_none_iff.1 hsymbol
  have hsymbol' : scanSymbol? (c :: rest) = none := by
    refine scanSymbol?_eq_none_iff.2 fun s hs => ?_
    obtain ⟨d, htext | ⟨e, htext, he⟩⟩ := s.text_second
    · rw [htext, List.cons_prefix_cons] at hs
      exact hnone s (by simp [htext, hs.1])
    · rw [htext, List.cons_prefix_cons] at hs
      obtain ⟨tail, rfl⟩ := hs.2
      simp [hrest.opensText e rfl] at he
  have hdot : c ≠ '.' := by
    rintro rfl
    exact hnone .dot (by simp [Symbol.text])
  have hdigit : c.isDigit = false := by simpa [startsNumber, hdot] using hnumber
  have hnumber' : startsNumber c rest = false := by simp [startsNumber, hdot, hdigit]
  rw [List.singleton_append, lex_cons hblank hhash, scanToken]
  simp [hnumber', hquote, hsymbol', hname]

/-! ## Tokens -/

/-- Whether a token comes of a quote. -/
def Token.isQuoted : Token → Bool
  | .str _ | .unterminated => true
  | _ => false

/-- What is cut off a text is cut off again where it is shown. -/
theorem Piece.shown {c : Char} {cs : List Char} (hblank : isBlank c = false) (hhash : c ≠ '#')
    (h : (scanToken c cs).token.isQuoted = false) :
    Piece false (scanToken c cs).token.text.toList [(scanToken c cs).token] := by
  unfold scanToken at h ⊢
  split
  · next hnumber => exact .number hnumber
  next hnumber =>
  rw [if_neg hnumber] at h
  split at h
  · split at h <;> simp [Token.isQuoted] at h
  next hquote =>
  rw [if_neg hquote]
  split
  · exact .symbol_alone _
  next hsymbol =>
  split
  · next hname =>
    simp only [text_wordToken]
    have hword := isWord_cons_takeWhile hname cs
    rw [← String.toList_ofList (l := c :: cs.takeWhile isNameContinue)] at hword
    exact hword.piece
  · next hname =>
    have hsingle : (Token.invalid c).text.toList = [c] := by simp [Token.text]
    rw [hsingle]
    exact .invalid hblank hhash (by simpa using hnumber) hquote hsymbol (by simpa using hname)

/-- Behind blanks and comments comes neither. -/
theorem skipBlanks_head {inComment : Bool} {cs : List Char} :
    ∀ c ∈ (skipBlanks inComment cs).2.head?, isBlank c = false ∧ c ≠ '#' := by
  induction cs generalizing inComment with
  | nil => cases inComment <;> simp [skipBlanks]
  | cons c cs ih =>
    cases inComment with
    | true => exact ih
    | false =>
      by_cases hc : (isBlank c || c == '#') = true
      · simpa [skipBlanks, hc] using @ih (c == '#')
      · have hne : isBlank c = false ∧ c ≠ '#' := by simpa using hc
        simpa [skipBlanks, hc] using hne

/-- The text of every token but strings is that token. -/
theorem lex_shown (cs : List Char) :
    ∀ t ∈ lex cs, t.isQuoted = false → Piece false t.text.toList [t] := by
  have hplaced : ∀ pos, ∀ t ∈ tokensFrom pos cs, t.token.isQuoted = false →
      Piece false t.token.text.toList [t.token] := by
    intro pos
    fun_induction tokensFrom pos cs with
    | case1 => simp
    | case2 pos cs skipped c rest hskip lexeme start stop ih =>
      obtain ⟨hblank, hhash⟩ := @skipBlanks_head false cs c (by simp [hskip])
      simp only [List.mem_cons, forall_eq_or_imp]
      exact ⟨fun h => .shown hblank hhash h, ih⟩
  simpa [lex] using hplaced 0

/-! ## Texts of all tokens -/

/-- Pieces with blanks between them are cut into their tokens, one after the other. -/
theorem Piece.spaced {ts : List Token} (h : ∀ t ∈ ts, Piece false t.text.toList [t]) :
    Piece false (" ".intercalate (ts.map Token.text)).toList ts := by
  induction ts with
  | nil => exact .nil
  | cons t ts ih =>
    have hfirst := h t (by simp)
    have hmore := ih fun u hu => h u (List.mem_cons_of_mem _ hu)
    cases ts with
    | nil => simpa using hfirst
    | cons u us =>
      rw [List.map_cons, List.map_cons, String.intercalate_cons_cons, String.toList_append,
        String.toList_append, List.append_assoc, ← List.map_cons (f := Token.text)]
      exact hfirst.join (by decide) hmore.space

/-- The texts of the tokens of a source without strings, with a blank between each two, are cut
into these tokens again. -/
theorem sourceTokens_shown {source : String} (h : ∀ t ∈ sourceTokens source, t.isQuoted = false) :
    sourceTokens (" ".intercalate ((sourceTokens source).map Token.text)) = sourceTokens source :=
  (Piece.spaced fun t ht => lex_shown source.toList t ht (h t ht)).lex_eq

/-- Numbers that stop where the next token starts, a letter of either case, and characters that
start no token. -/
theorem sourceTokens_shown_numbers :
    (∀ t ∈ sourceTokens "1.e5j1e+0x_g!=!2J..5", t.isQuoted = false) ∧
      sourceTokens (" ".intercalate ((sourceTokens "1.e5j1e+0x_g!=!2J..5").map Token.text))
        = sourceTokens "1.e5j1e+0x_g!=!2J..5" := by
  have h : ∀ t ∈ sourceTokens "1.e5j1e+0x_g!=!2J..5", t.isQuoted = false := by decide +kernel
  exact ⟨h, sourceTokens_shown h⟩

end ExprLang
