import ExprLang.Proofs.Parsing.Definitions
import ExprLang.Proofs.Parsing.Following

/-!
# Parsing is bounded, and errors point into the source

`parsing_bounded` : with more rounds than a source has tokens and expressions may nest, every walk
through the source comes to an end, and to what `parse` and `parseLine` return. From wherever one of
its methods is called, the index of the walker goes forward and stays among the tokens, and is moved
if an expression is read; its count of levels is as before, and on the way never higher than
expressions may nest; and an error stands at the start of a token or at the end of the source.
-/

namespace ExprLang

open ExprLang.Parser

variable {α β : Type} {place : Nat → Prop} {limit : Nat} {source : String} {s : Walker}

/-! ## Places -/

/-- The start of a token, or the end of the source. -/
def IsPlace (source : String) (pos : Nat) : Prop :=
  (∃ t ∈ tokens source, t.start = pos) ∨ pos = source.utf8ByteSize

/-- The check of the tokens refuses one of them, or brackets that are open at the end. -/
theorem place_of_checkTokens {ending depth : Nat} {ts : List Located} {e : SyntaxError}
    (hts : ∀ t ∈ ts, place t.start) (hending : place ending)
    (h : checkTokens ending depth ts = .error e) : place e.pos := by
  -- The check comes to the same twice, at corresponding places; here those are the allowed ones.
  have hbeside : List.Forall₂ (Located.Beside fun pos _ => place pos) ts ts :=
    List.forall₂_same.2 fun t ht => ⟨rfl, hts t ht⟩
  have halike : Alike (fun pos _ => place pos) (checkTokens ending depth ts)
      (checkTokens ending depth ts) := checkTokens_alike hbeside hending depth
  rw [h] at halike
  cases halike with
  | error cause hplace => exact hplace

/-! ## Sources and lines -/

/-- A walk comes to an end, with this value or this error; an error has a place. -/
structure Comes (place : Nat → Prop) (r : Option (Except SyntaxError α × Walker))
    (r' : Except SyntaxError α) : Prop where
  outcome : r.map (·.1) = some r'
  place : ∀ e, r' = .error e → place e.pos

theorem Comes.ok (a : α) (s : Walker) : Comes place (some (.ok a, s)) (.ok a) :=
  ⟨rfl, nofun⟩

/-- An error at one of the places. -/
theorem Comes.error {e : SyntaxError} (h : place e.pos) (s : Walker) :
    Comes (α := α) place (some (.error e, s)) (.error e) :=
  ⟨rfl, fun _ heq => Except.error.inj heq ▸ h⟩

theorem Comes.map {w : Walk α} {r' : Except SyntaxError α} (h : Comes place (w s) r') (f : α → β) :
    Comes place ((f <$> w) s) (f <$> r') := by
  have hmap : f <$> w = w >>= fun a => pure (f a) := rfl
  obtain ⟨houtcome, hplace⟩ := h
  obtain ⟨⟨r, s'⟩, hr, rfl⟩ := Option.map_eq_some_iff.1 houtcome
  rw [hmap, Walk.bind_eq, hr]
  cases r with
  | ok a => exact .ok _ _
  | error e => exact .error (hplace e rfl) _

/-- Where a walk arrives it has come. -/
theorem Arrives.comes {b : Bounds} {took : α → Prop} {r : Option (Except SyntaxError α × Walker)}
    {r' : Except SyntaxError (α × Cursor)} (h : Arrives b took s r r') :
    Comes b.place r (r'.map (·.1)) := by
  cases h with
  | ok h _ => exact .ok _ _
  | error h hplace => exact .error hplace _

section

variable (hlimit : maxNesting < limit) (hs : s.Ready ⟨place, limit, maxNesting⟩)

include hlimit hs

theorem whole_comes : Comes place (Walk.whole limit s) (whole.runOn s.cursor) := by
  have hwhole : Follows ⟨place, limit, maxNesting⟩ anywhere (Walk.whole limit) whole never :=
    .bind (enter_follows hlimit .expression).lax fun e => .bind .expectEnd fun _ => .pure
  exact (hwhole s hs trivial).comes

/-- A source, with or without tokens. -/
theorem source_comes : Comes place (Walk.source limit s)
    (if s.cursor.tokens.isEmpty then .error ⟨s.cursor.offset, .emptyExpression⟩
      else whole.runOn s.cursor) := by
  rw [Walk.source, Walk.bind_eq, Walk.atEnd, s.isEmpty_cursor, s.cursor_offset]
  by_cases hend : s.tokens.length ≤ s.index
  · simp only [hend, decide_true, ↓reduceIte]
    exact .error hs.offset s
  · simp only [hend, decide_false, Bool.false_eq_true, ↓reduceIte]
    exact whole_comes hlimit hs

/-- A line, by whether it is blank, defines a name or neither. -/
theorem line_comes (hindex : s.index = 0) : Comes place (Walk.line limit s)
    (if s.cursor.tokens.isEmpty then pure .blank
      else
        match definedName? s.cursor.tokens with
        | some name =>
          let c := s.cursor.drop 2
          if c.tokens.isEmpty then .error ⟨c.offset, .emptyDefinition⟩
          else .definition name <$> whole.runOn c
        | none => .expr <$> whole.runOn s.cursor) := by
  have htokens : s.cursor.tokens = s.tokens := by
    simp [Walker.cursor, Cursor.drop, hindex, Cursor.start]
  rw [Walk.line, Walk.bind_eq, Walk.atEnd, s.isEmpty_cursor]
  by_cases hend : s.tokens.length ≤ s.index
  · simp only [hend, decide_true, ↓reduceIte]
    exact .ok _ s
  simp only [hend, decide_false, Bool.false_eq_true, ↓reduceIte]
  rw [Walk.bind_eq, Walk.definedName?, htokens]
  cases hname : definedName? s.tokens with
  | none => exact (whole_comes hlimit hs).map _
  | some name =>
    have hlength : 2 ≤ s.cursor.words.length := by
      obtain ⟨sign, rest, -, hwords⟩ := definedName?_eq_some hname
      rw [Cursor.words, htokens, hwords]
      simp
    have hmove := hs.move hlength
    have hready := hmove.ready hs
    dsimp only
    rw [← s.cursor_move, Walker.isEmpty_cursor, Walker.cursor_offset, Walk.bind_eq, Walk.skip]
    dsimp only
    rw [Walk.bind_eq, Walk.atEnd]
    by_cases hend : (s.move 2).tokens.length ≤ (s.move 2).index
    · simp only [hend, decide_true, ↓reduceIte]
      exact .error hready.offset _
    · simp only [hend, decide_false, Bool.false_eq_true, ↓reduceIte]
      exact (whole_comes hlimit hready).map _

end

/-- A limit above the number of tokens collects them all. -/
theorem Scan.Yields.collect {scan scan' : Scan} {ts : List Located} (h : scan.Yields ts scan')
    (hlimit : ts.length < limit) : scan.collect limit = some ts := by
  induction h generalizing limit with
  | done hnext =>
    obtain ⟨limit, rfl⟩ : ∃ n, limit = n + 1 := ⟨limit - 1, by omega⟩
    simp [Scan.collect, hnext]
  | token hnext _ ih =>
    obtain ⟨limit, rfl⟩ : ∃ n, limit = n + 1 := ⟨limit - 1, by omega⟩
    simp [Scan.collect, hnext, ih (Nat.lt_of_succ_lt_succ hlimit)]

/-- A walk through a source comes to what is made of the cursor in front of it. -/
theorem through_comes {w : Walk α} {f : Cursor → Except SyntaxError α}
    (hrounds : (tokens source).length < limit)
    (h : ∀ s, s = Walker.start (tokens source) source.utf8ByteSize →
      Comes (IsPlace source) (w s) (f s.cursor)) :
    w.through limit source = some (Cursor.ofSource source >>= f) ∧
      ∀ e, Cursor.ofSource source >>= f = .error e → IsPlace source e.pos := by
  obtain ⟨scan, hyields, -⟩ := (tokens_tile source).exhausted
  have hcursor : (Walker.start (tokens source) source.utf8ByteSize).cursor
      = .start (tokens source) source.utf8ByteSize := Cursor.drop_zero _
  have hcomes := h _ rfl
  rw [hcursor] at hcomes
  simp only [Walk.through, hyields.collect hrounds, Cursor.ofSource, Cursor.start, bind,
    Except.bind, pure, Except.pure, Option.bind]
  cases hcheck : checkTokens source.utf8ByteSize 0 (tokens source) with
  | error e =>
    refine ⟨rfl, fun e' heq => ?_⟩
    cases heq
    exact place_of_checkTokens (fun t ht => .inl ⟨t, ht, rfl⟩) (.inr rfl) hcheck
  | ok u => exact ⟨hcomes.outcome, hcomes.place⟩

/-! ## Main statement -/

/-- A walker among the tokens of a source, with no more levels open than expressions may nest. -/
structure Walker.InSource (source : String) (s : Walker) : Prop where
  tokens : s.tokens = ExprLang.tokens source
  ending : s.ending = source.utf8ByteSize
  within : s.index ≤ s.tokens.length
  depth_le : s.depth ≤ maxNesting
  peak_le : s.peak ≤ maxNesting

/-- A method goes through a source from where a walker stands, and comes to an end: to the value or
error that the parser comes to, further on among the tokens if it has read something, and with as
many levels open as before. -/
structure Rule.Goes (rule : Rule α) (limit : Nat) (source : String) (s : Walker)
    (r : Except SyntaxError α) (s' : Walker) : Prop where
  ends : rule.walk limit s = some (r, s')
  parses : rule.parser (maxNesting - s.depth) s.cursor = r.map fun a => (a, s'.cursor)
  forward : s.index ≤ s'.index
  within : s'.index ≤ s.tokens.length
  advances : ∀ a, r = .ok a → rule.Reads a → s.index < s'.index
  depth : s'.depth = s.depth
  peak_le : s'.peak ≤ maxNesting
  place : ∀ e, r = .error e → IsPlace source e.pos

/-- Every rule goes somewhere, with enough levels and rounds. -/
theorem Rule.goes (rule : Rule α) (hlimit : maxNesting < limit)
    (hrounds : (tokens source).length < limit) (hs : s.InSource source) :
    ∃ r s', rule.Goes limit source s r s' := by
  have hready : s.Ready ⟨IsPlace source, limit, maxNesting - s.depth⟩ :=
    { starts := fun t ht => .inl ⟨t, hs.tokens ▸ ht, rfl⟩
      ending := .inr hs.ending
      rounds := hs.tokens ▸ hrounds
      within := hs.within
      depth := Nat.add_sub_cancel' hs.depth_le
      peak_le := hs.peak_le }
  have hends := rule.follows (Nat.lt_of_le_of_lt (Nat.sub_le _ _) hlimit) s hready trivial
  generalize hwalk : rule.walk limit s = r,
    hparser : rule.parser (maxNesting - s.depth) s.cursor = r' at hends
  cases hends with
  | @ok a s' h htook =>
    exact ⟨.ok a, s',
      { ends := hwalk
        parses := hparser
        forward := h.index_le
        within := h.within
        advances := fun b hb => Except.ok.inj hb ▸ htook
        depth := h.depth
        peak_le := h.peak_le
        place := nofun }⟩
  | @error e s' h hplace =>
    exact ⟨.error e, s',
      { ends := hwalk
        parses := hparser
        forward := h.index_le
        within := h.within
        advances := nofun
        depth := h.depth
        peak_le := h.peak_le
        place := fun e' he => Except.error.inj he ▸ hplace }⟩

/-- With more rounds than a source has tokens and expressions may nest, every method of the parser
goes through the source as it should, and so do the walks through the whole source, which come to
what `parse` and `parseLine` return, and to errors with a place in the source. -/
theorem parsing_bounded (source : String) {limit : Nat} (hlimit : maxNesting < limit)
    (hrounds : (tokens source).length < limit) :
    (∀ {α : Type} (rule : Rule α) (s : Walker), s.InSource source →
        ∃ r s', rule.Goes limit source s r s') ∧
      (Walk.source limit).through limit source = some (parse source) ∧
      (Walk.line limit).through limit source = some (parseLine source) ∧
      (∀ e, parse source = .error e → IsPlace source e.pos) ∧
      ∀ e, parseLine source = .error e → IsPlace source e.pos := by
  have hready : ∀ s, s = Walker.start (tokens source) source.utf8ByteSize →
      s.Ready ⟨IsPlace source, limit, maxNesting⟩ := by
    rintro s rfl
    exact
      { starts := fun t ht => .inl ⟨t, ht, rfl⟩
        ending := .inr rfl
        rounds := hrounds
        within := Nat.zero_le _
        depth := Nat.zero_add _
        peak_le := Nat.zero_le _ }
  obtain ⟨hsource, hsourcePlace⟩ :
      (Walk.source limit).through limit source = some (parse source) ∧
        ∀ e, parse source = .error e → IsPlace source e.pos :=
    through_comes hrounds fun s hs => source_comes hlimit (hready s hs)
  obtain ⟨hline, hlinePlace⟩ :
      (Walk.line limit).through limit source = some (parseLine source) ∧
        ∀ e, parseLine source = .error e → IsPlace source e.pos :=
    through_comes hrounds fun s hs => line_comes hlimit (hready s hs) (hs ▸ rfl)
  exact ⟨fun rule s hs => rule.goes hlimit hrounds hs, hsource, hline, hsourcePlace, hlinePlace⟩

/-- A bracket that is not closed is reported at the end. With as many levels open as expressions may
nest, no further one is entered. -/
theorem parsing_bounded_unclosed :
    maxNesting < 1501 ∧ (tokens "(a").length < 1501 ∧
      (Walk.source 1501).through 1501 "(a" = some (.error ⟨2, .unclosed 1⟩) ∧ IsPlace "(a" 2 ∧
      ∃ s', (Rule.nested .expression).Goes 1501 "(a" ⟨tokens "(a", 2, 1, maxNesting, maxNesting⟩
        (.error ⟨1, .tooDeep⟩) s' := by
  have hlimit : maxNesting < 1501 := by decide
  have htokens : tokens "(a" = [⟨0, 1, .symbol .openParen⟩, ⟨1, 2, .name "a"⟩] := by
    decide +kernel
  have hrounds : (tokens "(a").length < 1501 := by simp [htokens]
  have hparse : parse "(a" = .error ⟨2, .unclosed 1⟩ := by
    rw [parse_eq (by simp [htokens]), htokens]
    rfl
  have hs : Walker.InSource "(a" ⟨tokens "(a", 2, 1, maxNesting, maxNesting⟩ :=
    ⟨rfl, rfl, by simp [htokens], Nat.le_refl _, Nat.le_refl _⟩
  obtain ⟨hrule, hsource, -, hplace, -⟩ := parsing_bounded "(a" hlimit hrounds
  obtain ⟨r, s', hgoes⟩ := hrule (.nested .expression) _ hs
  have hwalk : (Rule.nested .expression).walk 1501 ⟨tokens "(a", 2, 1, maxNesting, maxNesting⟩
      = some (.error ⟨1, .tooDeep⟩, ⟨tokens "(a", 2, 1, maxNesting, maxNesting⟩) := by
    rw [htokens]
    rfl
  obtain ⟨rfl, rfl⟩ := Prod.mk.inj (Option.some.inj (hgoes.ends.symm.trans hwalk))
  exact ⟨hlimit, hrounds, hparse ▸ hsource, hplace _ hparse, _, hgoes⟩

end ExprLang
