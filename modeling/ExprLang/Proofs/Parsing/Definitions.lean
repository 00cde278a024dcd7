import ExprLang.Proofs.Parsing.Agreement
import ExprLang.Proofs.Printing.Pieces
import ExprLang.Proofs.Tokens.Identifiers

/-!
# Lines that define a name

`parseLine_agrees` : a line is an expression if and only if it is one as a source, since no
expression starts with a name and the sign of a definition. A line of a name, such a sign and a
source defines the name as what the source is read as, and is refused if the source is: for the same
cause, at a place that is further on by what stands before the source.

The tokens of a source stand on the line as they stand alone, at later places (`tokensFrom_beside`),
the brackets are checked with the same outcome (`checkTokens_alike`), and the parser comes to the
same (`runOn_alike`).
-/

namespace ExprLang

open ExprLang.Parser

variable {near : Nat → Nat → Prop} {α β : Type}

/-! ## Tokens and their places -/

/-- The tokens of a text do not depend on where it stands, and they stand where it does. -/
theorem tokensFrom_beside (k pos : Nat) (cs : List Char) :
    List.Forall₂ (Located.Beside fun p q => q = k + p) (tokensFrom pos cs)
      (tokensFrom (k + pos) cs) := by
  fun_induction tokensFrom pos cs with
  | case1 pos cs skipped hskip =>
    rw [tokensFrom]
    split
    · exact .nil
    · next heq => simp [hskip] at heq
  | case2 pos cs skipped c rest hskip lexeme start stop ih =>
    rw [tokensFrom.eq_1 (k + pos) cs]
    split
    · next heq => simp [hskip] at heq
    · next skipped' c' rest' heq =>
      obtain ⟨rfl, rfl, rfl⟩ : skipped = skipped' ∧ c = c' ∧ rest = rest' := by
        simpa [hskip] using heq
      have hstop : k + pos + byteLength skipped + byteLength lexeme.taken = k + stop := by
        simp only [stop, start]
        omega
      refine .cons ⟨rfl, ?_⟩ ?_
      · simp only [start]
        omega
      · rwa [hstop]

/-! ## Outcomes that are alike -/

/-- Outcomes that are the same but for the place of an error. -/
inductive Alike (near : Nat → Nat → Prop) : Except SyntaxError α → Except SyntaxError α → Prop
  | ok (a : α) : Alike near (.ok a) (.ok a)
  | error (cause : SyntaxCause) {pos pos' : Nat} : near pos pos' →
    Alike near (.error ⟨pos, cause⟩) (.error ⟨pos', cause⟩)

theorem Alike.bind {r r' : Except SyntaxError α} {f g : α → Except SyntaxError β}
    (h : Alike near r r') (hf : ∀ a, Alike near (f a) (g a)) : Alike near (r >>= f) (r' >>= g) := by
  cases h with
  | ok a => exact hf a
  | error cause h => exact .error cause h

theorem Alike.map {r r' : Except SyntaxError α} (h : Alike near r r') (f : α → β) :
    Alike near (f <$> r) (f <$> r') := by
  cases h with
  | ok a => exact .ok (f a)
  | error cause h => exact .error cause h

/-- Alike results give the same values. -/
theorem Alike.eq_ok_iff {r r' : Except SyntaxError α} (h : Alike near r r') (a : α) :
    r = .ok a ↔ r' = .ok a := by
  cases h with
  | ok b => rfl
  | error cause h => exact iff_of_false nofun nofun

/-- The same tokens at corresponding places pass the check alike. -/
theorem checkTokens_alike {ts us : List Located} {ending ending' : Nat}
    (h : List.Forall₂ (Located.Beside near) ts us) (hending : near ending ending') (depth : Nat) :
    Alike near (checkTokens ending depth ts) (checkTokens ending' depth us) := by
  induction h generalizing depth with
  | nil =>
    cases depth with
    | zero => exact .ok ()
    | succ depth => exact .error _ hending
  | @cons t u ts us ht _ ih =>
    obtain ⟨htoken, hstart⟩ := ht
    rw [checkTokens.eq_def, checkTokens.eq_def]
    simp only [← htoken]
    cases t.token with
    | unterminated => exact .error _ hstart
    | invalid c => exact .error _ hstart
    | symbol s =>
      dsimp only
      split
      · exact ih (depth + 1)
      split
      · cases depth with
        | zero => exact .error _ hstart
        | succ depth => exact ih depth
      · exact ih depth
    | _ => exact ih depth

/-- Parsers that agree come to results that are alike. -/
theorem runOn_alike {p q : Parser α} (h : Agrees near False p q) {c d : Cursor}
    (hcd : c.Beside near d) : Alike near (p.runOn c) (q.runOn d) := by
  have hrun := h c d hcd
  unfold runOn StateT.run
  generalize p c = r, q d = r' at hrun
  cases hrun with
  | ok a _ => exact .ok a
  | error cause h => exact .error cause h
  | tooDeep h => exact absurd h not_false

theorem whole_agrees : Agrees near False whole whole :=
  .bind (nested_agrees (Nat.le_refl _) (absurd · (Nat.lt_irrefl _)) .expression) fun _ =>
    .bind .expectEnd fun _ => .pure _

/-! ## Sources and lines -/

variable {source line name : String}

/-- A source is parsed once its tokens are checked. -/
theorem parse_eq (h : tokens source ≠ []) :
    parse source = checkTokens source.utf8ByteSize 0 (tokens source) >>= fun _ =>
      whole.runOn (.start (tokens source) source.utf8ByteSize) := by
  have htokens : (tokens source).isEmpty = false := by simpa using h
  simp only [parse, Cursor.ofSource, Cursor.start, bind, Except.bind, pure, Except.pure]
  cases checkTokens source.utf8ByteSize 0 (tokens source) with
  | error err => rfl
  | ok u => simp [htokens]

/-- A line that defines nothing is parsed as an expression. -/
theorem parseLine_eq (h : tokens line ≠ []) (hname : definedName? (tokens line) = none) :
    parseLine line = .expr <$> parse line := by
  have htokens : (tokens line).isEmpty = false := by simpa using h
  simp only [parse_eq h, parseLine, Cursor.ofSource, Cursor.start, bind, Except.bind, pure,
    Except.pure]
  cases checkTokens line.utf8ByteSize 0 (tokens line) with
  | error err => rfl
  | ok u => simp [htokens, hname]

/-- A line that defines a name is parsed behind the sign. -/
theorem parseLine_eq_definition (hname : definedName? (tokens line) = some name) :
    parseLine line = checkTokens line.utf8ByteSize 0 (tokens line) >>= fun _ =>
      let c := (Cursor.start (tokens line) line.utf8ByteSize).drop 2
      if c.tokens.isEmpty then .error ⟨c.offset, .emptyDefinition⟩
      else .definition name <$> whole.runOn c := by
  have htokens : (tokens line).isEmpty = false := by
    rw [List.isEmpty_eq_false_iff]
    rintro hnil
    simp [hnil, definedName?] at hname
  simp only [parseLine, Cursor.ofSource, Cursor.start, bind, Except.bind, pure, Except.pure]
  cases checkTokens line.utf8ByteSize 0 (tokens line) with
  | error err => rfl
  | ok u => simp [htokens, hname]

/-! ## Expressions -/

theorem definedName?_eq_some {ts : List Located} (h : definedName? ts = some name) :
    ∃ sign rest, (sign = .assign ∨ sign = .define) ∧
      ts.map (·.token) = .name name :: .symbol sign :: rest := by
  unfold definedName? at h
  split at h
  · next t u rest =>
    split at h
    · next htoken hsign =>
      obtain rfl := Option.some.inj h
      exact ⟨.assign, _, .inl rfl, by simp [htoken, hsign]; rfl⟩
    · next htoken hsign =>
      obtain rfl := Option.some.inj h
      exact ⟨.define, _, .inr rfl, by simp [htoken, hsign]; rfl⟩
    · cases h
  · cases h

/-- No expression starts with a name and the sign of a definition: the name is all of it. -/
theorem parse_ne_ok_of_definition {e : Expr} (hname : definedName? (tokens line) = some name) :
    parse line ≠ .ok e := by
  intro hparse
  obtain ⟨c, c', hc, hrun⟩ := whole_of_parse hparse
  obtain ⟨sign, rest, hsign, htokens⟩ := definedName?_eq_some hname
  have hwords : c.words = [.name name] ++ .symbol sign :: rest :=
    (ofSource_eq_ok hc).trans htokens
  have hrest : continuation (.symbol sign :: rest) < Entry.expression.level.bound := by
    rcases hsign with rfl | rfl <;> exact Nat.zero_lt_one
  have hvar : Reads .expression [.name name] (.var name) :=
    Derives.reads (.expression_of_primary (.ofAtom .name))
  have hexact : Leads (maxNesting < 2) (nested maxNesting .expression) [.name name]
      (.symbol sign :: rest) (pure (.var name)) :=
    hvar.within .expression hrest (Nat.lt_succ_self _)
  obtain ⟨e₁, c₁, hexpression, hrun⟩ := bind_eq_ok.1 hrun
  obtain ⟨u, c₂, hend, -⟩ := bind_eq_ok.1 hrun
  rcases hexact c hwords with heq | ⟨-, pos, herr⟩
  · obtain ⟨-, rfl⟩ := pure_eq_ok.1 (heq.symm.trans hexpression)
    simpa [hwords] using expectEnd_eq_ok hend
  · cases herr.symm.trans hexpression

/-- A line is an expression if it is one as a source. -/
theorem parseLine_eq_expr_iff {e : Expr} : parseLine line = .ok (.expr e) ↔ parse line = .ok e := by
  by_cases h : tokens line = []
  · have hcheck : checkTokens line.utf8ByteSize 0 [] = .ok () := rfl
    simp [parse, parseLine, Cursor.ofSource, Cursor.start, h, hcheck, bind, Except.bind, pure,
      Except.pure]
  cases hname : definedName? (tokens line) with
  | none =>
    rw [parseLine_eq h hname, map_eq_ok]
    simp
  | some name =>
    refine iff_of_false (fun hparse => ?_) (parse_ne_ok_of_definition hname)
    simp only [parseLine_eq_definition hname, bind, Except.bind] at hparse
    split at hparse
    · cases hparse
    split at hparse
    · cases hparse
    · obtain ⟨e', -, heq⟩ := map_eq_ok.1 hparse
      cases heq

/-! ## Definitions -/

/-- What stands before the source that a name is defined as. -/
def definitionHead (name : String) (sign : Symbol) : String :=
  name ++ " " ++ sign.text ++ " "

/-- The line that defines a name as a source. -/
def definitionLine (name : String) (sign : Symbol) (source : String) : String :=
  definitionHead name sign ++ source

/-- A name and a sign are two tokens, and the source behind them is cut up as it is alone. -/
theorem tokens_definitionLine (hname : IsName name) (sign : Symbol) (source : String) :
    ∃ t u, t.token = .name name ∧ u.token = .symbol sign ∧
      tokens (definitionLine name sign source)
        = t :: u :: tokensFrom (definitionHead name sign).utf8ByteSize source.toList := by
  have htext : (definitionLine name sign source).toList
      = name.toList ++ ' ' :: (sign.text.toList ++ ' ' :: source.toList) := by
    simp [definitionLine, definitionHead]
  have hsize : (definitionHead name sign).utf8ByteSize
      = byteLength name.toList + ' '.utf8Size + byteLength sign.text.toList + ' '.utf8Size := by
    simp only [definitionHead, String.utf8ByteSize_append, ← utf8ByteSize_ofList,
      String.ofList_toList]
    rfl
  have hspace : ∀ c ∈ (' ' :: source.toList).head?, sign.extends c = false := by
    rintro c ⟨⟩
    exact Symbol.extends_eq_false (by decide) fun _ => by decide
  have hstop : ∀ c ∈ (' ' :: (sign.text.toList ++ ' ' :: source.toList)).head?,
      isNameContinue c = false := by
    rintro c ⟨⟩
    decide
  rw [tokens, htext, tokensFrom_word hname.word hstop, tokensFrom_blank (by decide),
    tokensFrom_symbol hspace, tokensFrom_blank (by decide), hsize, Nat.zero_add]
  exact ⟨_, _, by simpa using hname.free, rfl, rfl⟩

/-- A line that defines a name comes to what its source comes to, at places further on. -/
theorem parseLine_definitionLine_alike {sign : Symbol} (hname : IsName name)
    (hsign : sign = .assign ∨ sign = .define) (hsource : tokens source ≠ []) :
    Alike (fun p q => q = (definitionHead name sign).utf8ByteSize + p)
      (.definition name <$> parse source) (parseLine (definitionLine name sign source)) := by
  obtain ⟨t, u, ht, hu, htokens⟩ := tokens_definitionLine hname sign source
  generalize hk : (definitionHead name sign).utf8ByteSize = k at htokens
  have hbeside : List.Forall₂ (Located.Beside fun p q => q = k + p) (tokens source)
      (tokensFrom k source.toList) := tokensFrom_beside k 0 source.toList
  have hdefined : definedName? (tokens (definitionLine name sign source)) = some name := by
    rcases hsign with rfl | rfl <;> simp [htokens, definedName?, ht, hu]
  have hrest : (tokensFrom k source.toList).isEmpty = false := by
    rw [List.isEmpty_eq_false_iff]
    intro hnil
    rw [hnil, List.forall₂_nil_right_iff] at hbeside
    exact hsource hbeside
  have hending : (definitionLine name sign source).utf8ByteSize = k + source.utf8ByteSize := by
    rw [definitionLine, String.utf8ByteSize_append, hk]
  -- The name and the sign are no brackets, so the count starts over behind them.
  have hplain : Checked [.name name, .symbol sign] := by
    rcases hsign with rfl | rfl <;> exact .cons rfl (.cons rfl .nil)
  have hcheck := hplain (definitionLine name sign source).utf8ByteSize 0 [t, u]
    (tokensFrom k source.toList) (by simp [ht, hu])
  rw [List.cons_append, List.cons_append, List.nil_append] at hcheck
  rw [parse_eq hsource, parseLine_eq_definition hdefined, map_bind, htokens, hcheck]
  simp only [Cursor.start, Cursor.drop, List.drop_succ_cons, List.drop_zero, hrest]
  refine .bind (checkTokens_alike hbeside hending 0) fun _ => .map (runOn_alike whole_agrees ?_) _
  exact ⟨hbeside, hending⟩

/-! ## Main statement -/

/-- A line is an expression if and only if it is one as a source. A line of a name, the sign of a
definition and a source with tokens defines the name as the expression that the source is, and is
refused where the source is, further on by what stands before the source. -/
theorem parseLine_agrees (line : String) :
    (∀ e, parseLine line = .ok (.expr e) ↔ parse line = .ok e) ∧
      ∀ name sign source, isIdentifier name = true → isReservedWord name = false →
        (sign = .assign ∨ sign = .define) → tokens source ≠ [] →
        (∀ e, parseLine (definitionLine name sign source) = .ok (.definition name e) ↔
          parse source = .ok e) ∧
        ∀ pos cause, parse source = .error ⟨pos, cause⟩ →
          parseLine (definitionLine name sign source)
            = .error ⟨(definitionHead name sign).utf8ByteSize + pos, cause⟩ := by
  refine ⟨fun e => parseLine_eq_expr_iff, fun name sign source hid hfree hsign hsource => ?_⟩
  have halike := parseLine_definitionLine_alike (isName_iff.2 ⟨hid, hfree⟩) hsign hsource
  refine ⟨fun e => ?_, fun pos cause herr => ?_⟩
  · rw [← halike.eq_ok_iff, map_eq_ok]
    simp
  · rw [herr] at halike
    generalize parseLine (definitionLine name sign source) = r at halike ⊢
    cases halike with
    | error cause h => rw [h]

/-- A bracket that is not closed is reported at the end of the line, six bytes further on. -/
theorem parseLine_agrees_unclosed :
    isIdentifier "é" = true ∧ isReservedWord "é" = false ∧ tokens "(a" ≠ [] ∧
      parse "(a" = .error ⟨2, .unclosed 1⟩ ∧
      parseLine (definitionLine "é" .define "(a") = .error ⟨8, .unclosed 1⟩ := by
  have hid : isIdentifier "é" = true := by decide +kernel
  have hfree : isReservedWord "é" = false := by decide
  have htokens : tokens "(a" = [⟨0, 1, .symbol .openParen⟩, ⟨1, 2, .name "a"⟩] := by
    decide +kernel
  have hsource : tokens "(a" ≠ [] := by simp [htokens]
  have hparse : parse "(a" = .error ⟨2, .unclosed 1⟩ := by
    rw [parse_eq hsource, htokens]
    rfl
  have hline := ((parseLine_agrees "").2 "é" .define "(a" hid hfree (.inr rfl) hsource).2 _ _ hparse
  exact ⟨hid, hfree, hsource, hparse, hline⟩

end ExprLang
