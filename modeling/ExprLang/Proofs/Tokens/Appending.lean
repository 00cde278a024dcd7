import ExprLang.Proofs.Tokens.Display
import Mathlib.Data.List.TakeWhile

/-!
# Tokens of texts that are put together

A text without blanks, comments and quotes is cut into the same tokens whatever comes after an
expression stands behind it (`Piece.plain`). A dot is let in only where the text does not end in a
decimal integer (`EndsInInteger`), and where it does, its tokens are not those that the longer text
begins with (`not_prefix_lex_point`).

One token at a time, what stands behind a text goes to what the token leaves
(`scanToken_append_rest`).
-/

namespace ExprLang

variable {dot : Bool} {rest : List Char}

/-! ## Parts of tokens -/

/-- A run that ends in front of the rest, or within. -/
theorem takeWhile_append_rest {p : Char → Bool} (cs : List Char)
    (h : ∀ c ∈ rest.head?, p c = false) : (cs ++ rest).takeWhile p = cs.takeWhile p := by
  induction cs with
  | nil => exact @takeWhile_append_stop p [] rest (by simp) h
  | cons c cs ih => cases hc : p c <;> simp [hc, ih]

theorem dropWhile_append_rest {p : Char → Bool} (cs : List Char)
    (h : ∀ c ∈ rest.head?, p c = false) : (cs ++ rest).dropWhile p = cs.dropWhile p ++ rest := by
  induction cs with
  | nil => exact @dropWhile_append_stop p [] rest (by simp) h
  | cons c cs ih => cases hc : p c <;> simp [hc, ih]

/-- What stops a text is no sign. -/
theorem Stops.ne_sign (h : Stops dot rest) : ∀ c ∈ rest.head?, c ≠ '+' ∧ c ≠ '-' := by
  have table : separators.all (fun c => c != '+' && c != '-') = true := by decide
  intro c hc
  rcases h c hc with hc | ⟨-, rfl⟩
  · simpa using List.all_eq_true.1 table c hc
  · decide

/-- What stops a text in front of no dot is no point. -/
theorem Stops.ne_point (h : Stops false rest) : ∀ c ∈ rest.head?, c ≠ '.' := by
  rintro c hc rfl
  exact absurd (h.endsInt '.' hc) (by decide)

/-- Letters do not stop anything. -/
theorem Stops.ne_letter (h : Stops dot rest) {d : Char} (hd : isNameContinue d = true) :
    ∀ c ∈ rest.head?, c ≠ d := by
  rintro c hc rfl
  simp [h.not_continues c hc] at hd

/-- A fraction is scanned as if nothing followed. -/
theorem scanFraction_append_rest {cs : List Char} (h : Stops dot rest)
    (hpoint : cs = [] → ∀ c ∈ rest.head?, c ≠ '.') :
    scanFraction (cs ++ rest) = ((scanFraction cs).1, (scanFraction cs).2 ++ rest) := by
  cases cs with
  | nil => exact IsFraction.none.scan h.isDigitOrLow (hpoint rfl)
  | cons c cs =>
    by_cases hc : c = '.'
    · subst hc
      simp [scanFraction, takeWhile_append_rest _ h.isDigitOrLow,
        dropWhile_append_rest _ h.isDigitOrLow]
    · simp [scanFraction, hc]

/-- A sign is scanned as if nothing followed. -/
theorem scanSign_append_rest (cs : List Char) (h : Stops dot rest) :
    scanSign (cs ++ rest) = ((scanSign cs).1, (scanSign cs).2 ++ rest) := by
  cases cs with
  | nil =>
    cases rest with
    | nil => rfl
    | cons c rest =>
      obtain ⟨hplus, hminus⟩ := h.ne_sign c rfl
      simp [scanSign, hplus, hminus]
  | cons c cs =>
    by_cases hc : c = '+' ∨ c = '-' <;> simp [scanSign, hc]

/-- An exponent is scanned as if nothing followed. -/
theorem scanExponent_append_rest (cs : List Char) (h : Stops dot rest) :
    scanExponent (cs ++ rest) = ((scanExponent cs).1, (scanExponent cs).2 ++ rest) := by
  cases cs with
  | nil =>
    exact IsExponent.none.scan h.isDigitOrLow fun c hc =>
      ⟨h.ne_letter (by decide) c hc, h.ne_letter (by decide) c hc⟩
  | cons mark cs =>
    have hdigit : ((scanSign cs).2 ++ rest).head?.any Char.isDigit
        = (scanSign cs).2.head?.any Char.isDigit := by
      cases (scanSign cs).2 with
      | nil =>
        cases hrest : rest.head? with
        | none => simp [hrest]
        | some c => simp [hrest, h.isDigit c hrest]
      | cons d ds => rfl
    simp only [List.cons_append, scanExponent, scanSign_append_rest cs h, hdigit]
    split
    · simp [takeWhile_append_rest _ h.isDigitOrLow, dropWhile_append_rest _ h.isDigitOrLow]
    · rfl

/-! ## Numbers -/

/-- A token with more text behind it. -/
def Lexeme.append (l : Lexeme) (rest : List Char) : Lexeme :=
  { l with rest := l.rest ++ rest }

/-- A decimal is scanned as if nothing followed, but a dot must not stand behind bare digits. -/
theorem scanDecimal_append_rest {cs : List Char} (h : Stops dot rest)
    (hdot : dot = true → cs.dropWhile isDigitOrLow ≠ []) :
    scanDecimal (cs ++ rest) = (scanDecimal cs).append rest := by
  have hpoint : cs.dropWhile isDigitOrLow = [] → ∀ c ∈ rest.head?, c ≠ '.' := by
    intro hnil
    cases dot with
    | false => exact h.ne_point
    | true => exact absurd hnil (hdot rfl)
  simp only [scanDecimal, takeWhile_append_rest cs h.isDigitOrLow,
    dropWhile_append_rest cs h.isDigitOrLow, scanFraction_append_rest h hpoint,
    scanExponent_append_rest _ h]
  cases (scanExponent (scanFraction (cs.dropWhile isDigitOrLow)).2).2 with
  | nil =>
    cases rest with
    | nil => rfl
    | cons c rest =>
      have hj : c ≠ 'j' := h.ne_letter (by decide) c rfl
      have hJ : c ≠ 'J' := h.ne_letter (by decide) c rfl
      simp [Lexeme.append, hj, hJ]
  | cons c more =>
    by_cases hc : c = 'j' ∨ c = 'J' <;> simp [Lexeme.append, hc]

/-- A number is scanned as if nothing followed, but a dot must not stand behind an integer. -/
theorem scanNumber_append_rest {c : Char} {cs : List Char} (h : Stops dot rest)
    (hstarts : startsNumber c cs = true) (hdot : dot = true → ¬IsInteger (c :: cs)) :
    scanNumber (c :: (cs ++ rest)) = (scanNumber (c :: cs)).append rest := by
  by_cases hradix : StartsRadix (c :: cs)
  · obtain ⟨mark, more, heq, hmark⟩ := hradix
    obtain ⟨rfl, rfl⟩ := List.cons.inj heq
    have hstop : ∀ d ∈ rest.head?, isRadixDigit d = false := fun d hd =>
      isRadixDigit_eq_false (h.not_continues d hd)
    simp [scanNumber, Lexeme.append, hmark, takeWhile_append_rest _ hstop,
      dropWhile_append_rest _ hstop]
  · have hmarks : ∀ d ∈ rest.head?, isRadixMark d = false := fun d hd =>
      isRadixMark_eq_false (h.not_continues d hd)
    have hradix' :=
      not_startsRadix_append (List.cons_ne_nil c cs) (List.prefix_refl _) hradix hmarks
    have hdigits : dot = true → (c :: cs).dropWhile isDigitOrLow ≠ [] := by
      intro hdot' hnil
      rw [List.dropWhile_eq_nil_iff] at hnil
      refine hdot hdot' ⟨⟨c, rfl, ?_⟩, hnil⟩
      have hne : c ≠ '.' := by
        rintro rfl
        exact absurd (hnil '.' (by simp)) (by decide)
      simpa [startsNumber, hne] using hstarts
    rw [List.cons_append] at hradix'
    rw [scanNumber_of_not_startsRadix hradix', scanNumber_of_not_startsRadix hradix,
      ← scanDecimal_append_rest h hdigits, List.cons_append]

/-! ## Tokens -/

theorem afterStart?_append_rest {s : Symbol} (c : Char) (cs : List Char)
    (h : ∀ c ∈ rest.head?, opensText c = true) :
    afterStart? s.text.toList (c :: (cs ++ rest))
      = (afterStart? s.text.toList (c :: cs)).map (· ++ rest) := by
  obtain ⟨d, htext | ⟨e, htext, he⟩⟩ := s.text_second
  · rw [htext]
    by_cases hd : d = c <;> simp [afterStart?, hd]
  · rw [htext]
    cases cs with
    | nil =>
      cases rest with
      | nil => simp [afterStart?]
      | cons r rest =>
        have hne : e ≠ r := by
          rintro rfl
          simp [h e rfl] at he
        simp [afterStart?, hne]
    | cons r cs =>
      by_cases hd : d = c
      · by_cases her : e = r <;> simp [afterStart?, hd, her]
      · simp [afterStart?, hd]

/-- A symbol is scanned as if nothing followed. -/
theorem scanSymbol?_cons_append_rest (c : Char) (cs : List Char)
    (h : ∀ c ∈ rest.head?, opensText c = true) :
    scanSymbol? (c :: (cs ++ rest))
      = (scanSymbol? (c :: cs)).map fun found => (found.1, found.2 ++ rest) := by
  rw [scanSymbol?, scanSymbol?, List.map_findSome?]
  congr 1
  funext s
  simp only [afterStart?_append_rest c cs h, Function.comp_apply, Option.map_map]
  rfl

/-- Whether a number begins is told by the text alone. -/
theorem startsNumber_append_rest (c : Char) (cs : List Char) (h : Stops dot rest) :
    startsNumber c (cs ++ rest) = startsNumber c cs := by
  cases cs with
  | nil =>
    cases hrest : rest.head? with
    | none => simp [startsNumber, hrest]
    | some d => simp [startsNumber, hrest, h.isDigit d hrest]
  | cons d cs => rfl

/-- A token leaves what it left, and then what stands behind the text. -/
theorem scanToken_append_rest {c : Char} {cs : List Char} (h : Stops dot rest)
    (hquote : ¬(c = '\'' ∨ c = '"')) (hdot : dot = true → ¬IsInteger (c :: cs)) :
    scanToken c (cs ++ rest) = (scanToken c cs).append rest := by
  simp only [scanToken, startsNumber_append_rest c cs h, hquote, if_false,
    scanSymbol?_cons_append_rest c cs h.opensText]
  split
  · next hstarts => exact scanNumber_append_rest h hstarts hdot
  cases scanSymbol? (c :: cs) with
  | some found => rfl
  | none =>
    simp only [Option.map_none, takeWhile_append_rest cs h.not_continues,
      dropWhile_append_rest cs h.not_continues]
    split <;> rfl

/-! ## Texts without blanks, comments and quotes -/

/-- Whether a character neither stands between tokens nor begins a comment or a string. -/
def isPlain (c : Char) : Bool :=
  !isBlank c && c != '#' && c != '\'' && c != '"'

/-- Plain characters begin no string and no comment. -/
theorem isPlain_iff {c : Char} :
    isPlain c = true ↔ isBlank c = false ∧ c ≠ '#' ∧ ¬(c = '\'' ∨ c = '"') := by
  simp [isPlain, and_assoc]

theorem isPlain_of_isNameContinue {c : Char} (h : isNameContinue c = true) : isPlain c = true := by
  have hne : ∀ d, isNameContinue d = false → c ≠ d := by
    rintro d hd rfl
    simp [hd] at h
  exact isPlain_iff.2 ⟨isBlank_of_isNameContinue h, hne _ (by decide),
    not_or.2 ⟨hne _ (by decide), hne _ (by decide)⟩⟩

/-- Whether the last token of a text is a decimal integer. -/
def EndsInInteger (text : List Char) : Prop :=
  ∃ digits, (lex text).getLast? = some (.int digits) ∧ ∀ c ∈ digits.toList, isDigitOrLow c = true

/-- A dot behind a decimal integer makes another number of it. -/
theorem lex_integer_point {cs : List Char} (h : IsInteger cs) (rest : List Char) :
    ¬lex cs <+: lex (cs ++ '.' :: rest) := by
  have hpoint : ∀ c ∈ ('.' :: rest).head?, isDigitOrLow c = false := by
    rintro c ⟨⟩
    decide
  have hint : ∀ digits, (scanDecimal (cs ++ '.' :: rest)).token ≠ .int digits := by
    intro digits
    simp only [scanDecimal, takeWhile_append_stop h.2 hpoint, dropWhile_append_stop h.2 hpoint,
      scanFraction, if_true, List.isEmpty_cons, Bool.false_and, Bool.false_eq_true, if_false]
    split
    · simp
    · split <;> simp
  rw [h.lex_eq, lex_integer_append h ('.' :: rest) (by rintro c ⟨⟩; decide),
    List.cons_prefix_cons]
  exact fun hbegins => hint _ hbegins.1.symm

/-- An integer ends in an integer. -/
theorem IsInteger.endsInInteger {cs : List Char} (h : IsInteger cs) : EndsInInteger cs :=
  ⟨String.ofList cs, by simp [h.lex_eq], by simpa using h.2⟩

/-- A text ends as what is left after its first token. -/
theorem EndsInInteger.cons {t : Token} {c : Char} {cs rest : List Char}
    (hlex : lex (c :: cs) = t :: lex rest) (h : EndsInInteger rest) : EndsInInteger (c :: cs) := by
  obtain ⟨digits, hlast, hdigits⟩ := h
  refine ⟨digits, ?_, hdigits⟩
  rw [hlex, List.getLast?_cons, hlast]
  rfl

/-- What is left after a token is of the text. -/
theorem scanToken_rest_subset (c : Char) (cs : List Char) : (scanToken c cs).rest ⊆ c :: cs := by
  rw [← scanToken_append c cs]
  exact List.subset_append_right _ _

/-- A text without blanks, comments and quotes is a piece, and one that a dot may follow if it does
not end in a decimal integer. -/
theorem Piece.plain {text : List Char} (hplain : ∀ c ∈ text, isPlain c = true)
    (hdot : dot = true → ¬EndsInInteger text) : Piece dot text (lex text) := by
  intro rest hrest
  induction hlength : text.length using Nat.strong_induction_on generalizing text with
  | h n ih =>
    cases text with
    | nil => simp
    | cons c cs =>
      obtain ⟨hblank, hhash, hquote⟩ := isPlain_iff.1 (hplain c (by simp))
      have hlex := lex_cons hblank hhash cs
      have hscan := scanToken_append_rest hrest hquote fun h hinteger =>
        hdot h hinteger.endsInInteger
      have hlt := scanToken_rest_lt c cs
      rw [List.cons_append, lex_cons hblank hhash, hscan, hlex, List.cons_append,
        ← ih _ (by simpa [← hlength] using hlt)
          (fun d hd => hplain d (scanToken_rest_subset c cs hd))
          (fun h hends => hdot h (hends.cons hlex)) rfl]
      rfl

/-- A text that begins with a plain character has a token. -/
theorem lex_ne_nil {c : Char} {cs : List Char} (h : isPlain c = true) : lex (c :: cs) ≠ [] := by
  obtain ⟨hblank, hhash, -⟩ := isPlain_iff.1 h
  rw [lex_cons hblank hhash]
  exact List.cons_ne_nil _ _

/-- An integer token begins as a number. -/
theorem startsNumber_of_token {c : Char} {cs : List Char} {digits : String}
    (h : (scanToken c cs).token = .int digits) : startsNumber c cs = true := by
  have hword : ∀ word, wordToken word ≠ .int digits := by
    intro word
    unfold wordToken
    split
    · simp
    · split <;> simp
  unfold scanToken at h
  split at h
  · assumption
  split at h
  · split at h <;> simp at h
  split at h
  · simp at h
  split at h
  · exact absurd h (hword _)
  · simp at h

/-- A text that is an integer to its end. -/
theorem isInteger_of_token {c : Char} {cs : List Char} {digits : String}
    (h : (scanToken c cs).token = .int digits)
    (hdigits : ∀ d ∈ digits.toList, isDigitOrLow d = true)
    (hrest : (scanToken c cs).rest = []) : IsInteger (c :: cs) := by
  have hstarts := startsNumber_of_token h
  have htext := @scanToken_verbatim c cs (by rw [h]; rfl)
  have happ := scanToken_append c cs
  rw [hrest, List.append_nil] at happ
  obtain rfl : digits = String.ofList (c :: cs) := by rwa [h, happ] at htext
  rw [String.toList_ofList] at hdigits
  refine ⟨⟨c, rfl, ?_⟩, hdigits⟩
  have hne : c ≠ '.' := by
    rintro rfl
    exact absurd (hdigits '.' (by simp)) (by decide)
  simpa [startsNumber, hne] using hstarts

/-- Behind a decimal integer a dot belongs to the number, so that the tokens change. -/
theorem not_prefix_lex_point {text : List Char} (hplain : ∀ c ∈ text, isPlain c = true)
    (hends : EndsInInteger text) (rest : List Char) : ¬lex text <+: lex (text ++ '.' :: rest) := by
  induction hlength : text.length using Nat.strong_induction_on generalizing text with
  | h n ih =>
    cases text with
    | nil =>
      obtain ⟨digits, hlast, -⟩ := hends
      simp at hlast
    | cons c cs =>
      by_cases hinteger : IsInteger (c :: cs)
      · exact lex_integer_point hinteger rest
      obtain ⟨hblank, hhash, hquote⟩ := isPlain_iff.1 (hplain c (by simp))
      have hlex := lex_cons hblank hhash cs
      have hscan := scanToken_append_rest (@Stops.point rest) hquote fun _ => hinteger
      have hlt := scanToken_rest_lt c cs
      have hplainRest : ∀ d ∈ (scanToken c cs).rest, isPlain d = true := fun d hd =>
        hplain d (scanToken_rest_subset c cs hd)
      have hendsRest : EndsInInteger (scanToken c cs).rest := by
        obtain ⟨digits, hlast, hdigits⟩ := hends
        rw [hlex, List.getLast?_cons] at hlast
        cases hrest : (scanToken c cs).rest with
        | nil =>
          rw [hrest] at hlast
          exact absurd (isInteger_of_token (by simpa using hlast) hdigits hrest) hinteger
        | cons d ds =>
          have hne := @lex_ne_nil d ds (hplainRest d (by simp [hrest]))
          rw [hrest, List.getLast?_eq_some_getLast hne] at hlast
          exact ⟨digits, by rw [List.getLast?_eq_some_getLast hne]; simpa using hlast, hdigits⟩
      rw [hlex, List.cons_append, lex_cons hblank hhash, hscan, List.cons_prefix_cons]
      exact fun hbegins => ih _ (by simpa [← hlength] using hlt) hplainRest hendsRest rfl hbegins.2

end ExprLang
