import ExprLang.Token.Lexer

/-!
# Tokens tile their source

`tokens_tile` : between two tokens, before the first and after the last stand only blanks and
comments (`IsGap`), and with those in between the tokens make up the source (`Tiles`). Every token
takes at least one character and stands where the one before it ends or later, its span starts and
ends between two characters, and all but strings, imaginary numbers and the mark of a string
without end are shown exactly as they are spelt.

`Scan` is the cutting as it runs, one token at a time: after the last token it stands at the end of
the source.
-/

namespace ExprLang

/-! ## Bytes -/

theorem byteLength_append (cs ds : List Char) :
    byteLength (cs ++ ds) = byteLength cs + byteLength ds := by
  induction cs with
  | nil => simp [byteLength]
  | cons c cs ih =>
    simp only [byteLength, List.cons_append, List.map_cons, List.foldr_cons] at ih ⊢
    omega

theorem byteLength_pos {cs : List Char} (h : cs ≠ []) : 0 < byteLength cs := by
  cases cs with
  | nil => exact absurd rfl h
  | cons c cs =>
    have := c.utf8Size_pos
    simp only [byteLength, List.map_cons, List.foldr_cons]
    omega

theorem utf8ByteSize_ofList (cs : List Char) : (String.ofList cs).utf8ByteSize = byteLength cs := by
  induction cs with
  | nil => rfl
  | cons c cs ih =>
    rw [String.ofList_cons, String.utf8ByteSize_append, ih, String.utf8ByteSize_singleton]
    rfl

/-- The byte behind the first characters of a text stands between two characters. -/
theorem isValid_byteLength {source : String} {before rest : List Char}
    (h : source.toList = before ++ rest) :
    String.Pos.Raw.IsValid source ⟨byteLength before⟩ := by
  refine String.Pos.Raw.isValid_iff_exists_append.2
    ⟨String.ofList before, String.ofList rest, ?_, ?_⟩
  · rw [← String.ofList_append, ← h, String.ofList_toList]
  · rw [← utf8ByteSize_ofList]
    rfl

/-! ## What stands between tokens -/

/-- Blanks and comments. A comment runs from `#` to a newline, or, where no more tokens come, to
the end. -/
inductive IsGap (last : Prop) : List Char → Prop
  | nil : IsGap last []
  | blank {c : Char} {cs : List Char} : isBlank c = true → IsGap last cs → IsGap last (c :: cs)
  | comment {text cs : List Char} : '\n' ∉ text → IsGap last cs →
    IsGap last ('#' :: (text ++ '\n' :: cs))
  | unended {text : List Char} : last → '\n' ∉ text → IsGap last ('#' :: text)

/-- What is left of a gap inside a comment. -/
inductive EndsComment (last : Prop) : List Char → Prop
  | newline {text cs : List Char} : '\n' ∉ text → IsGap last cs →
    EndsComment last (text ++ '\n' :: cs)
  | unended {text : List Char} : last → '\n' ∉ text → EndsComment last text

/-- One more character of a comment. -/
theorem EndsComment.cons {last : Prop} {c : Char} {cs : List Char} (hc : c ≠ '\n')
    (h : EndsComment last cs) : EndsComment last (c :: cs) := by
  cases h with
  | @newline text cs htext hcs =>
    exact @EndsComment.newline _ (c :: text) cs (by simp [hc.symm, htext]) hcs
  | unended hlast htext => exact .unended hlast (by simp [hc.symm, htext])

theorem EndsComment.isGap {last : Prop} {cs : List Char} (h : EndsComment last cs) :
    IsGap last ('#' :: cs) := by
  cases h with
  | newline htext hcs => exact .comment htext hcs
  | unended hlast htext => exact .unended hlast htext

/-- What is skipped is a gap, inside a comment or not; the gap is the last one if nothing is
left. -/
theorem skipBlanks_isGap (cs : List Char) :
    IsGap ((skipBlanks false cs).2 = []) (skipBlanks false cs).1 ∧
      EndsComment ((skipBlanks true cs).2 = []) (skipBlanks true cs).1 := by
  induction cs with
  | nil => exact ⟨.nil, .unended rfl (by simp [skipBlanks])⟩
  | cons c cs ih =>
    obtain ⟨hgap, hcomment⟩ := ih
    constructor
    · by_cases hhash : c = '#'
      · subst hhash
        exact hcomment.isGap
      · have hmark : (c == '#') = false := by simpa using hhash
        by_cases hblank : isBlank c = true
        · simpa [skipBlanks, hblank, hmark] using hgap.blank hblank
        · simpa [skipBlanks, hblank, hmark] using IsGap.nil
    · by_cases hnewline : c = '\n'
      · subst hnewline
        exact @EndsComment.newline _ [] _ (by simp) hgap
      · have hinside : (c != '\n') = true := by simpa using hnewline
        simpa [skipBlanks, hinside] using hcomment.cons hnewline

/-! ## What a token takes -/

/-- Whether a token is shown as it is spelt. -/
def Token.isVerbatim : Token → Bool
  | .invalid _ | .name _ | .keyword _ | .reserved _ | .int _ | .float _ | .symbol _ => true
  | .unterminated | .imaginary _ | .str _ => false

/-- A keyword is found by its text. -/
theorem Keyword.text_of_ofText? {word : String} {k : Keyword} (h : Keyword.ofText? word = some k) :
    k.text = word := by
  simpa using List.find?_some h

/-- The token of a word is displayed as the word. -/
theorem text_wordToken (word : String) : (wordToken word).text = word := by
  unfold wordToken
  split
  · next k hk => exact Keyword.text_of_ofText? hk
  · split <;> rfl

/-- A number that is not imaginary is displayed as it was scanned. -/
theorem scanDecimal_verbatim {cs : List Char} (h : (scanDecimal cs).token.isVerbatim = true) :
    (scanDecimal cs).token.text = String.ofList (scanDecimal cs).taken := by
  have htext : ∀ (whole : Bool) (digits : List Char),
      (if whole then Token.int (String.ofList digits) else .float (String.ofList digits)).text
        = String.ofList digits := by
    intro whole digits
    cases whole <;> rfl
  simp only [scanDecimal] at h ⊢
  split
  · exact htext _ _
  · split
    · next hrest hj => simp [hrest, hj, Token.isVerbatim] at h
    · exact htext _ _

/-- Every token but strings and imaginary numbers is displayed as it was scanned. -/
theorem scanToken_verbatim {c : Char} {cs : List Char}
    (h : (scanToken c cs).token.isVerbatim = true) :
    (scanToken c cs).token.text = String.ofList (scanToken c cs).taken := by
  unfold scanToken at h ⊢
  split at h
  · next hnumber =>
    rw [if_pos hnumber]
    unfold scanNumber at h ⊢
    split at h
    · split at h
      · next hradix => rw [if_pos hradix]; rfl
      · next hradix => rw [if_neg hradix]; exact scanDecimal_verbatim h
    · exact scanDecimal_verbatim h
  next hnumber =>
  rw [if_neg hnumber]
  split at h
  · split at h <;> simp [Token.isVerbatim] at h
  next hquote =>
  rw [if_neg hquote]
  split
  · next s rest _ => exact String.ofList_toList.symm
  · split
    · exact text_wordToken _
    · rfl

/-! ## Tiles -/

/-- The tokens and what stands between them make up the text `cs`, which stands at offset `pos`. -/
inductive Tiles : Nat → List Char → List Located → Prop
  | gap {pos : Nat} {gap : List Char} : IsGap True gap → Tiles pos gap []
  | token {pos : Nat} {gap taken rest : List Char} {t : Located} {ts : List Located} :
    IsGap False gap → taken ≠ [] →
    (t.token.isVerbatim = true → t.token.text = String.ofList taken) →
    t.start = pos + byteLength gap → t.stop = t.start + byteLength taken → Tiles t.stop rest ts →
    Tiles pos (gap ++ (taken ++ rest)) (t :: ts)

/-- The tokens of a text tile it. -/
theorem tokensFrom_tiles (pos : Nat) (cs : List Char) : Tiles pos cs (tokensFrom pos cs) := by
  fun_induction tokensFrom pos cs with
  | case1 pos cs skipped hskip =>
    have hgap := (skipBlanks_isGap cs).1
    have happ := skipBlanks_append false cs
    rw [hskip] at hgap happ
    obtain rfl : skipped = cs := by simpa using happ
    exact .gap (by simpa using hgap)
  | case2 pos cs skipped c rest hskip lexeme start stop ih =>
    have hgap := (skipBlanks_isGap cs).1
    have happ := skipBlanks_append false cs
    rw [hskip] at hgap happ
    have htaken : lexeme.taken ++ lexeme.rest = c :: rest := scanToken_append c rest
    obtain rfl : skipped ++ (lexeme.taken ++ lexeme.rest) = cs := htaken ▸ happ
    exact .token (by simpa using hgap) (scanToken_taken_ne_nil c rest) scanToken_verbatim rfl rfl ih

/-- Every token of a tiled text has a place in it. -/
theorem Tiles.place {pos : Nat} {cs : List Char} {ts : List Located} (h : Tiles pos cs ts) :
    ∀ t ∈ ts, ∃ before taken after, cs = before ++ (taken ++ after) ∧ taken ≠ [] ∧
      t.start = pos + byteLength before ∧ t.stop = pos + byteLength (before ++ taken) := by
  induction h with
  | gap => simp
  | @token pos gap taken rest t ts _ htaken _ hstart hstop _ ih =>
    intro u hu
    rcases List.mem_cons.1 hu with rfl | hu
    · refine ⟨gap, taken, rest, rfl, htaken, hstart, ?_⟩
      rw [hstop, hstart, byteLength_append]
      omega
    · obtain ⟨before, taken', after, rfl, hne, hbefore, hafter⟩ := ih u hu
      refine ⟨gap ++ (taken ++ before), taken', after, by simp, hne, ?_, ?_⟩
      · rw [hbefore, hstop, hstart]
        simp only [byteLength_append]
        omega
      · rw [hafter, hstop, hstart]
        simp only [byteLength_append]
        omega

/-- Tokens come one after the other. -/
theorem Tiles.ordered {pos : Nat} {cs : List Char} {ts : List Located} (h : Tiles pos cs ts) :
    ts.Pairwise fun t u => t.stop ≤ u.start := by
  induction h with
  | gap => exact .nil
  | token _ _ _ _ _ htiles ih =>
    refine .cons (fun u hu => ?_) ih
    obtain ⟨before, _, _, _, _, hstart, _⟩ := htiles.place u hu
    omega

/-! ## One token at a time -/

/-- A source that is being cut: where its last token starts, where the cutting stands, and what is
left. -/
structure Scan where
  start : Nat
  pos : Nat
  rest : List Char

/-- Before the first token. -/
def Scan.ofSource (source : String) : Scan :=
  ⟨0, 0, source.toList⟩

/-- The next token, if there is one, and where the cutting stands then. -/
def Scan.next (s : Scan) : Option Token × Scan :=
  match skipBlanks false s.rest with
  | (skipped, []) => (none, ⟨s.pos + byteLength skipped, s.pos + byteLength skipped, []⟩)
  | (skipped, c :: rest) =>
    let lexeme := scanToken c rest
    let start := s.pos + byteLength skipped
    (some lexeme.token, ⟨start, start + byteLength lexeme.taken, lexeme.rest⟩)

/-- The cutting gives these tokens, at these places, and then no more. -/
inductive Scan.Yields : Scan → List Located → Scan → Prop
  | done {s s' : Scan} : s.next = (none, s') → s.Yields [] s'
  | token {s s' s'' : Scan} {t : Token} {ts : List Located} : s.next = (some t, s') →
    s'.Yields ts s'' → s.Yields (⟨s'.start, s'.pos, t⟩ :: ts) s''

/-- The scanner yields the tokens, and then stands at the end. -/
theorem Scan.yields_tokensFrom (start pos : Nat) (cs : List Char) :
    (⟨start, pos, cs⟩ : Scan).Yields (tokensFrom pos cs)
      ⟨pos + byteLength cs, pos + byteLength cs, []⟩ := by
  fun_induction tokensFrom pos cs generalizing start with
  | case1 pos cs skipped hskip =>
    have happ := skipBlanks_append false cs
    rw [hskip] at happ
    obtain rfl : skipped = cs := by simpa using happ
    exact .done (by simp [next, hskip])
  | case2 pos cs skipped c rest hskip lexeme first stop ih =>
    have hnext : (⟨start, pos, cs⟩ : Scan).next
        = (some lexeme.token, ⟨first, stop, lexeme.rest⟩) := by
      simp [next, hskip, lexeme, first, stop]
    have hlength : stop + byteLength lexeme.rest = pos + byteLength cs := by
      have happ := skipBlanks_append false cs
      have htaken : lexeme.taken ++ lexeme.rest = c :: rest := scanToken_append c rest
      rw [hskip, ← htaken] at happ
      rw [← happ, byteLength_append, byteLength_append]
      simp only [stop, first]
      omega
    have hrest := ih first
    rw [hlength] at hrest
    exact .token hnext hrest

/-! ## Sources -/

/-- What the tokens of a source are to it. -/
structure Tiling (source : String) (ts : List Located) : Prop where
  tiles : Tiles 0 source.toList ts
  nonempty : ∀ t ∈ ts, t.start < t.stop
  boundaries : ∀ t ∈ ts, String.Pos.Raw.IsValid source ⟨t.start⟩ ∧
    String.Pos.Raw.IsValid source ⟨t.stop⟩
  ordered : ts.Pairwise fun t u => t.stop ≤ u.start
  exhausted : ∃ s, (Scan.ofSource source).Yields ts s ∧ s.pos = source.utf8ByteSize

/-- The tokens of a source tile it, and they are all that the cutting gives before it ends at the
end of the source. -/
theorem tokens_tile (source : String) : Tiling source (tokens source) := by
  have htiles : Tiles 0 source.toList (tokens source) := tokensFrom_tiles 0 source.toList
  refine ⟨htiles, fun t ht => ?_, fun t ht => ?_, htiles.ordered, ?_⟩
  · obtain ⟨before, taken, after, _, hne, hstart, hstop⟩ := htiles.place t ht
    have := byteLength_pos hne
    rw [byteLength_append] at hstop
    omega
  · obtain ⟨before, taken, after, hsource, _, hstart, hstop⟩ := htiles.place t ht
    rw [hstart, hstop, Nat.zero_add, Nat.zero_add]
    exact ⟨isValid_byteLength hsource,
      isValid_byteLength (by rw [hsource, List.append_assoc])⟩
  · refine ⟨_, Scan.yields_tokensFrom 0 0 source.toList, ?_⟩
    rw [Nat.zero_add, ← utf8ByteSize_ofList, String.ofList_toList]

end ExprLang
