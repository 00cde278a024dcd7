import ExprLang.Proofs.Parsing.Depth
import ExprLang.Proofs.Parsing.Walk

/-!
# The walker follows the parser

From where a walker stands it comes to what the parser of the same name makes of the tokens ahead,
and ends up in front of the tokens that the parser leaves (`Follows`). On the way its index only
goes forward and never past the tokens, its count of levels comes back to what it was and is never
higher than expressions may nest, and an error is found at a token or at the end (`Arrives`).

There is a rule for each way to put walks together. A repetition ends because each of its rounds
that asks for more has taken a token (`Follows.loop`), and this is why all that is said of a method
says also for which results it has taken one. What is nested ends because the count goes up with
each level (`enter_follows`).
-/

namespace ExprLang

open ExprLang.Parser

variable {α β σ : Type}

/-! ## Where a walker stands -/

/-- What holds of all walks that are compared: where errors may be found, how many rounds there are,
and how many levels are left. -/
structure Bounds where
  place : Nat → Prop
  limit : Nat
  room : Nat

namespace Walker

variable {s s' s'' : Walker} {b : Bounds}

/-- The tokens ahead. -/
def cursor (s : Walker) : Cursor :=
  (Cursor.start s.tokens s.ending).drop s.index

/-- The tokens ahead are those from the index on. -/
theorem cursor_words (s : Walker) : s.cursor.words = (s.tokens.drop s.index).map (·.token) :=
  rfl

/-- To move on is to drop tokens. -/
theorem cursor_move (s : Walker) (n : Nat) : (s.move n).cursor = s.cursor.drop n := by
  simp [cursor, move]

/-- As many tokens are ahead as the index is short of the end. -/
theorem length_words (s : Walker) : s.cursor.words.length = s.tokens.length - s.index := by
  simp [cursor_words]

theorem head?_words (s : Walker) : s.cursor.words.head? = s.ahead? 0 := by
  simp [cursor_words, ahead?, List.head?_drop]

theorem head?_drop_words (s : Walker) : (s.cursor.words.drop 1).head? = s.ahead? 1 := by
  simp [cursor_words, ahead?, List.head?_drop]

/-- Nothing is ahead at the end alone. -/
theorem isEmpty_cursor (s : Walker) :
    s.cursor.tokens.isEmpty = decide (s.tokens.length ≤ s.index) := by
  rw [Bool.eq_iff_iff, List.isEmpty_iff, decide_eq_true_iff]
  exact List.drop_eq_nil_iff

/-- An error at a walker's place and one at its cursor's are at the same byte. -/
theorem cursor_offset (s : Walker) : s.cursor.offset = s.offset := by
  have hhead : s.cursor.tokens.head? = s.tokens[s.index]? := List.head?_drop
  unfold Cursor.offset offset
  rw [← hhead]
  cases s.cursor.tokens <;> rfl

/-- The index is among the tokens or at their end, and the levels open and left are as many as
expressions may nest. -/
structure Ready (b : Bounds) (s : Walker) : Prop where
  starts : ∀ t ∈ s.tokens, b.place t.start
  ending : b.place s.ending
  rounds : s.tokens.length < b.limit
  within : s.index ≤ s.tokens.length
  depth : s.depth + b.room = maxNesting
  peak_le : s.peak ≤ maxNesting

/-- From one place a walker can come to another: it stays among the tokens and has closed the levels
it opened. -/
structure Reaches (s s' : Walker) : Prop where
  tokens : s'.tokens = s.tokens
  ending : s'.ending = s.ending
  depth : s'.depth = s.depth
  index_le : s.index ≤ s'.index
  within : s'.index ≤ s.tokens.length
  peak_le : s'.peak ≤ maxNesting

/-- A walker has come to where it stands. -/
theorem Ready.reaches (h : s.Ready b) : s.Reaches s :=
  ⟨rfl, rfl, rfl, Nat.le_refl _, h.within, h.peak_le⟩

theorem Ready.move (h : s.Ready b) {n : Nat} (hn : n ≤ s.cursor.words.length) :
    s.Reaches (s.move n) := by
  rw [length_words] at hn
  have hwithin := h.within
  refine ⟨rfl, rfl, rfl, Nat.le_add_right _ _, ?_, h.peak_le⟩
  simp only [Walker.move]
  omega

/-- Where it comes to, it is ready again. -/
theorem Reaches.ready (h : s.Reaches s') (hs : s.Ready b) : s'.Ready b where
  starts := h.tokens ▸ hs.starts
  ending := h.ending ▸ hs.ending
  rounds := h.tokens ▸ hs.rounds
  within := h.tokens ▸ h.within
  depth := h.depth ▸ hs.depth
  peak_le := h.peak_le

theorem Reaches.trans (h : s.Reaches s') (h' : s'.Reaches s'') : s.Reaches s'' where
  tokens := h'.tokens.trans h.tokens
  ending := h'.ending.trans h.ending
  depth := h'.depth.trans h.depth
  index_le := Nat.le_trans h.index_le h'.index_le
  within := h.tokens ▸ h'.within
  peak_le := h'.peak_le

/-- The place of a walker that is ready is one where errors may be found. -/
theorem Ready.offset (h : s.Ready b) : b.place s.offset := by
  unfold Walker.offset
  split
  · next t ht => exact h.starts t (List.mem_of_getElem? ht)
  · exact h.ending

end Walker

/-! ## Strings one at a time -/

namespace Parser

/-- The next string literal, if one comes, behind those that were taken. -/
def stringStep (value : String) : Parser (String × Bool) := do
  match ← peek? with
  | some (.str more) => skip 1; pure (value ++ more, true)
  | _ => pure (value, false)

/-- One round joins all string literals if the next finds none. -/
theorem iterate_stringStep_stop {value : String} {c : Cursor}
    (h : stringStep value c = .ok ((value, false), c)) (hnil : leadingStrings c.tokens = []) :
    iterate stringStep value c
      = .ok (value ++ String.join (leadingStrings c.tokens),
          c.drop (leadingStrings c.tokens).length) := by
  rw [iterate.eq_1, h, hnil]
  simp

/-- String literals taken one at a time are those that are taken all at once. -/
theorem iterate_stringStep (value : String) (c : Cursor) :
    iterate stringStep value c
      = .ok (value ++ String.join (leadingStrings c.tokens),
          c.drop (leadingStrings c.tokens).length) := by
  generalize hn : c.tokens.length = n
  induction n generalizing value c with
  | zero =>
    have hnil : c.tokens = [] := List.length_eq_zero_iff.1 hn
    refine iterate_stringStep_stop ?_ (by rw [hnil]; rfl)
    rw [stringStep, peek?_bind, Cursor.words, hnil]
    rfl
  | succ n ih =>
    obtain ⟨t, rest, htokens⟩ := List.exists_cons_of_length_eq_add_one hn
    have hrest : (c.drop 1).tokens = rest := by simp [Cursor.drop, htokens]
    have hleft : (c.drop 1).left < c.left := by simp [Cursor.left_eq, htokens, hrest]
    have hround : stringStep value c = _ := peek?_bind
    rw [Cursor.words, htokens] at hround
    cases ht : t.token with
    | str more =>
      have hstep : stringStep value c = .ok ((value ++ more, true), c.drop 1) := by
        rw [hround]
        simp only [List.map_cons, List.head?_cons, ht]
        rfl
      have hmore : leadingStrings c.tokens = more :: leadingStrings rest := by
        simp [htokens, leadingStrings, ht]
      rw [iterate.eq_1, hstep]
      simp only [hleft, and_self, ↓reduceDIte]
      rw [ih (value ++ more) (c.drop 1) (by simpa [htokens, hrest] using hn), hrest, hmore]
      simp [String.append_assoc, Nat.add_comm]
    | _ =>
      refine iterate_stringStep_stop ?_ (by simp [htokens, leadingStrings, ht])
      rw [hround]
      simp only [List.map_cons, List.head?_cons, ht]
      rfl

/-- The string literals at the cursor, the first of which is known. -/
theorem strings_eq {value : String} {c : Cursor} (hc : c.words.head? = some (.str value)) :
    strings c
      = .ok (value ++ String.join (leadingStrings (c.drop 1).tokens),
          (c.drop 1).drop (leadingStrings (c.drop 1).tokens).length) := by
  obtain ⟨t, ts, hts, ht⟩ : ∃ t ts, c.tokens = t :: ts ∧ t.token = .str value := by
    obtain ⟨vs, hvs⟩ := List.head?_eq_some_iff.1 hc
    obtain ⟨t, ts, htokens, ht, -⟩ := List.map_eq_cons_iff.1 hvs
    exact ⟨t, ts, htokens, ht⟩
  have hdrop : (c.drop 1).tokens = ts := by simp [Cursor.drop, hts]
  simp [strings, hts, hdrop, leadingStrings, ht, Nat.add_comm]

end Parser

/-! ## Walks and parsers -/

/-- What a walk and a parser come to: the same, either a value, with the walker in front of the
tokens that the parser leaves, or an error. The walker has taken a token if the value is as in
`took`. -/
inductive Arrives (b : Bounds) (took : α → Prop) (s : Walker) :
    Option (Except SyntaxError α × Walker) → Except SyntaxError (α × Cursor) → Prop
  | ok {a : α} {s' : Walker} (h : s.Reaches s') (htook : took a → s.index < s'.index) :
    Arrives b took s (some (.ok a, s')) (.ok (a, s'.cursor))
  | error {e : SyntaxError} {s' : Walker} (h : s.Reaches s') (hplace : b.place e.pos) :
    Arrives b took s (some (.error e, s')) (.error e)

/-- In front of tokens as in `pre`, a walk comes to what a parser comes to. -/
def Follows (b : Bounds) (pre : List Token → Prop) (w : Walk α) (p : Parser α) (took : α → Prop) :
    Prop :=
  ∀ s : Walker, s.Ready b → pre s.cursor.words → Arrives b took s (w s) (p s.cursor)

/-- Of every value a token was taken. -/
abbrev always : α → Prop := fun _ => True

/-- Of no value is it said that a token was taken. -/
abbrev never : α → Prop := fun _ => False

variable {b : Bounds} {pre : List Token → Prop} {took took' : α → Prop} {s s' : Walker}

/-- A walk that began further on has come as far from here, and has taken a token if either part
has. -/
theorem Arrives.after {r : Option (Except SyntaxError α × Walker)}
    {r' : Except SyntaxError (α × Cursor)} (h : s.Reaches s') (hends : Arrives b took' s' r r')
    (htook : ∀ a, took a → took' a ∨ s.index < s'.index) : Arrives b took s r r' := by
  cases hends with
  | @ok a s'' h' htook' =>
    refine .ok (h.trans h') fun ha => ?_
    rcases htook a ha with ha' | hlt
    · exact Nat.lt_of_le_of_lt h.index_le (htook' ha')
    · exact Nat.lt_of_lt_of_le hlt h'.index_le
  | error h' hplace => exact .error (h.trans h') hplace

/-- Two walks, the second from where the first has come to. -/
theorem Walk.bind_eq {w : Walk α} {f : α → Walk β} {s : Walker} : (w >>= f) s = match w s with
    | none => none
    | some (.error e, s') => some (.error e, s')
    | some (.ok a, s') => f a s' := by
  simp only [Bind.bind, ExceptT.bind, ExceptT.mk, StateT.bind, Option.bind]
  cases w s with
  | none => rfl
  | some r =>
    obtain ⟨r, s'⟩ := r
    cases r <;> rfl

namespace Follows

variable {w : Walk α} {p : Parser α}

theorem mono (h : Follows b pre w p took) (himp : ∀ a, took' a → took a) :
    Follows b pre w p took' :=
  fun s hs hpre => .after hs.reaches (h s hs hpre) fun a ha => .inl (himp a ha)

theorem lax (h : Follows b pre w p always) : Follows b pre w p took :=
  h.mono fun _ _ => trivial

theorem weaken (h : Follows b anywhere w p took) : Follows b pre w p took :=
  fun s hs _ => h s hs trivial

/-- The parser may be another that agrees on these tokens. -/
theorem congr {p' : Parser α} (h : Follows b pre w p took)
    (heq : ∀ c : Cursor, pre c.words → p' c = p c) : Follows b pre w p' took :=
  fun s hs hpre => heq s.cursor hpre ▸ h s hs hpre

theorem pure_of {a : α} (h : ¬took a) : Follows b pre (pure a) (pure a) took :=
  fun _ hs _ => .ok hs.reaches fun ha => absurd ha h

theorem pure {a : α} : Follows b pre (pure a) (pure a) never :=
  .pure_of not_false

/-- The last round of a repetition. -/
theorem stop {state : σ} : Follows b pre (Pure.pure (state, false)) (Pure.pure (state, false))
    fun r => r.2 = true :=
  .pure_of Bool.false_ne_true

section

variable {took : β → Prop} {f : α → Walk β} {g : α → Parser β}

/-- The second need take a token only where the first has not. -/
theorem bind_of {first : α → Prop} (h : Follows b pre w p first)
    (hf : ∀ a, Follows b anywhere (f a) (g a) fun x => took x ∧ ¬first a) :
    Follows b pre (w >>= f) (p >>= g) took := by
  intro s hs hpre
  have hfirst := h s hs hpre
  rw [Walk.bind_eq]
  simp only [Bind.bind, StateT.bind, Except.bind]
  generalize w s = r, p s.cursor = r' at hfirst
  cases hfirst with
  | @ok a s' h htook =>
    refine .after h (hf a s' (h.ready hs) trivial) fun x hx => ?_
    by_cases ha : first a
    · exact .inr (htook ha)
    · exact .inl ⟨hx, ha⟩
  | error h hplace => exact .error h hplace

/-- What is done first need not take anything. -/
theorem bind (h : Follows b pre w p never)
    (hf : ∀ a, Follows b anywhere (f a) (g a) took) : Follows b pre (w >>= f) (p >>= g) took :=
  .bind_of h fun a => (hf a).mono fun _ hx => hx.1

/-- What is done first takes something, and what follows need not. -/
theorem taking (h : Follows b pre w p always)
    (hf : ∀ a, Follows b anywhere (f a) (g a) never) : Follows b pre (w >>= f) (p >>= g) took :=
  .bind_of h fun a => (hf a).mono fun _ hx => hx.2 trivial

theorem offset {f : Nat → Walk β} {g : Nat → Parser β}
    (h : ∀ pos, b.place pos → Follows b pre (f pos) (g pos) took) :
    Follows b pre (Walk.offset >>= f) (Parser.offset >>= g) took := by
  intro s hs hpre
  rw [bind_of_ok (offset_eq_ok.2 ⟨s.cursor_offset, rfl⟩)]
  exact h s.offset hs.offset s hs hpre

/-- To look at the next token is to know it in what follows. -/
theorem peek? {f : Option Token → Walk β} {g : Option Token → Parser β}
    (h : ∀ t, Follows b (fun ts => pre ts ∧ ts.head? = t) (f t) (g t) took) :
    Follows b pre (Walk.peek? >>= f) (Parser.peek? >>= g) took := by
  intro s hs hpre
  rw [bind_of_ok (peek?_eq_ok.2 ⟨s.head?_words, rfl⟩)]
  exact h _ s hs ⟨hpre, s.head?_words⟩

/-- To look at the token after the next is to know it in what follows. -/
theorem peekSecond? {f : Option Token → Walk β} {g : Option Token → Parser β}
    (h : ∀ t, Follows b (fun ts => pre ts ∧ (ts.drop 1).head? = t) (f t) (g t) took) :
    Follows b pre (Walk.peekSecond? >>= f) (Parser.peekSecond? >>= g) took := by
  intro s hs hpre
  rw [bind_of_ok (peekSecond?_eq_ok.2 ⟨s.head?_drop_words, rfl⟩)]
  exact h _ s hs ⟨hpre, s.head?_drop_words⟩

/-- Takes tokens that are there. -/
theorem skip {n : Nat} {f : Unit → Walk β} {g : Unit → Parser β} (hn : 0 < n)
    (hpre : ∀ ts, pre ts → n ≤ ts.length) (h : Follows b anywhere (f ()) (g ()) never) :
    Follows b pre (Walk.skip n >>= f) (Parser.skip n >>= g) took := by
  intro s hs hs'
  have hmove := hs.move (hpre _ hs')
  rw [bind_of_ok (skip_eq_ok.2 rfl), ← s.cursor_move]
  refine .after hmove (h _ (hmove.ready hs) trivial) fun _ _ => .inr ?_
  exact Nat.lt_add_of_pos_right hn

/-- To take the token that is known to come. -/
theorem skip_one {t : Token} {f : Unit → Walk β} {g : Unit → Parser β}
    (h : Follows b anywhere (f ()) (g ()) never) :
    Follows b (fun ts => pre ts ∧ ts.head? = some t) (Walk.skip 1 >>= f) (Parser.skip 1 >>= g)
      took := by
  refine .skip Nat.zero_lt_one (fun ts hts => ?_) h
  obtain ⟨rest, rfl⟩ := List.head?_eq_some_iff.1 hts.2
  simp

/-- Asks for a token. If it comes it is taken, and what follows need not take anything. -/
theorem eat {t : Token} {w w' : Walk β} {p p' : Parser β}
    (htrue : Follows b anywhere w p never)
    (hfalse : Follows b (fun ts => pre ts ∧ ts.head? ≠ some t) w' p' took) :
    Follows b pre (Walk.eat t >>= fun eaten => if eaten = true then w else w')
      (Parser.eat t >>= fun eaten => if eaten = true then p else p') took := by
  intro s hs hpre
  by_cases ht : s.cursor.words.head? = some t
  · have hwalk : Walk.eat t s = some (.ok true, s.move 1) := by
      rw [Walk.eat, ← s.head?_words, if_pos ht]
    have hlength : 1 ≤ s.cursor.words.length := by
      obtain ⟨rest, hrest⟩ := List.head?_eq_some_iff.1 ht
      simp [hrest]
    have hmove := hs.move hlength
    rw [Walk.bind_eq, hwalk, bind_of_ok (eat_eq_ok.2 (.inl ⟨rfl, ht, rfl⟩)), ← s.cursor_move]
    refine .after hmove (htrue _ (hmove.ready hs) trivial) fun _ _ => .inr ?_
    exact Nat.lt_add_one _
  · have hwalk : Walk.eat t s = some (.ok false, s) := by
      rw [Walk.eat, ← s.head?_words, if_neg ht]
    rw [Walk.bind_eq, hwalk, bind_of_ok (eat_eq_ok.2 (.inr ⟨rfl, ht, rfl⟩))]
    exact hfalse s hs ⟨hpre, ht⟩

end

theorem failAt {pos : Nat} {cause : SyntaxCause} (hpos : b.place pos) :
    Follows b pre (Walk.failAt pos cause) (Parser.failAt pos cause) took :=
  fun _ hs _ => .error hs.reaches hpos

theorem fail {cause : SyntaxCause} : Follows b pre (Walk.fail cause) (Parser.fail cause) took := by
  intro s hs _
  unfold Walk.fail Parser.fail
  rw [s.cursor_offset]
  exact .error hs.reaches hs.offset

theorem unexpected : Follows b pre Walk.unexpected Parser.unexpected took := by
  intro s hs _
  have hparser : (Parser.unexpected : Parser α) s.cursor
      = .error ⟨s.cursor.offset, Walk.surprise s.cursor.words.head?⟩ := by
    unfold Parser.unexpected Cursor.offset Cursor.words
    cases s.cursor.tokens <;> rfl
  rw [hparser, s.head?_words, s.cursor_offset]
  exact .error hs.reaches hs.offset

theorem ite {c : Prop} [Decidable c] {w w' : Walk α} {p p' : Parser α}
    (h : Follows b pre w p took) (h' : Follows b pre w' p' took) :
    Follows b pre (if c then w else w') (if c then p else p') took := by
  split
  · exact h
  · exact h'

theorem fail_bind {cause : SyntaxCause} {f : β → Walk α} {g : β → Parser α} :
    Follows b pre (Walk.fail cause >>= f) (Parser.fail cause >>= g) took := by
  intro s hs _
  have hfail : (Parser.fail cause : Parser β) s.cursor = .error ⟨s.offset, cause⟩ := by
    rw [← s.cursor_offset]
    rfl
  rw [bind_error hfail]
  exact .error hs.reaches hs.offset

theorem failAt_bind {pos : Nat} {cause : SyntaxCause} {f : β → Walk α} {g : β → Parser α}
    (hpos : b.place pos) :
    Follows b pre (Walk.failAt pos cause >>= f) (Parser.failAt pos cause >>= g) took :=
  fun _ hs _ => .error hs.reaches hpos

/-- A check, and what follows it. -/
theorem check {c : Prop} [Decidable c] {cause : SyntaxCause} {w : Unit → Walk α}
    {p : Unit → Parser α} (h : Follows b pre (w ()) (p ()) took) :
    Follows b pre (if c then Walk.fail cause >>= w else w ())
      (if c then Parser.fail cause >>= p else p ()) took :=
  .ite .fail_bind h

/-- A check that says where it stands, and what follows it. -/
theorem checkAt {c : Prop} [Decidable c] {cause : SyntaxCause} {pos : Nat} (hpos : b.place pos)
    {w : Unit → Walk α} {p : Unit → Parser α} (h : Follows b pre (w ()) (p ()) took) :
    Follows b pre (if c then Walk.failAt pos cause >>= w else w ())
      (if c then Parser.failAt pos cause >>= p else p ()) took :=
  .ite (.failAt_bind hpos) h

theorem expect {symbol : Symbol} {took : Unit → Prop} :
    Follows b pre (Walk.expect symbol) (Parser.expect symbol) took :=
  .eat .pure .unexpected

theorem expectName {took : String → Prop} :
    Follows b pre Walk.expectName Parser.expectName took := by
  refine .peek? fun t => ?_
  cases t with
  | none => exact .unexpected
  | some t =>
    cases t with
    | name text => exact .skip_one .pure
    | _ => exact .unexpected

theorem expectEnd : Follows b pre Walk.expectEnd Parser.expectEnd never := by
  intro s hs hpre
  have hlength : s.cursor.words.length = s.tokens.length - s.index := s.length_words
  rw [Walk.expectEnd, Walk.bind_eq, Parser.expectEnd, peek?_bind]
  by_cases hend : s.tokens.length ≤ s.index
  · have hnil : s.cursor.words = [] := List.length_eq_zero_iff.1 (by omega)
    simp only [Walk.atEnd, hend, hnil, decide_true, ↓reduceIte]
    exact Follows.pure s hs hpre
  · have hne : s.cursor.words ≠ [] := by
      intro hnil
      rw [hnil, List.length_nil] at hlength
      omega
    obtain ⟨t, ts, hts⟩ := List.exists_cons_of_ne_nil hne
    simp only [Walk.atEnd, hend, hts, decide_false, Bool.false_eq_true, ↓reduceIte]
    exact Follows.unexpected s hs hpre

/-! ## Repetitions -/

section

variable {step : σ → Walk (σ × Bool)} {step' : σ → Parser (σ × Bool)} {took : σ → Prop}
  {took' : σ × Bool → Prop}

/-- A repetition with more rounds than there are tokens ahead comes to its end, since a round that
asks for more has taken a token. -/
theorem loop_arrives (h : ∀ state, Follows b anywhere (step state) (step' state) took')
    (hmore : ∀ r, r.2 = true → took' r) (hlast : ∀ r, took r.1 → took' r) {rounds : Nat}
    (state : σ) (hs : s.Ready b) (hrounds : s.tokens.length - s.index < rounds) :
    Arrives b took s (Walk.loop step rounds state s) (Parser.iterate step' state s.cursor) := by
  induction rounds generalizing state s with
  | zero => exact absurd hrounds (Nat.not_lt_zero _)
  | succ rounds ih =>
    have hround := h state s hs trivial
    rw [Walk.loop, Walk.bind_eq, Parser.iterate.eq_1]
    generalize step state s = r, step' state s.cursor = r' at hround
    cases hround with
    | error h hplace => exact .error h hplace
    | @ok r s' h htook =>
      obtain ⟨state', more⟩ := r
      cases more with
      | false => exact .ok h fun ha => htook (hlast _ ha)
      | true =>
        have htaken : s.index < s'.index := htook (hmore _ rfl)
        have hfewer : s'.tokens.length - s'.index < s.tokens.length - s.index := by
          have hwithin := h.within
          rw [h.tokens]
          omega
        have hleft : s'.cursor.left < s.cursor.left := by
          simpa [Cursor.left_eq_length, Walker.length_words] using hfewer
        simp only [hleft, and_self, ↓reduceDIte, ↓reduceIte]
        exact .after h (ih state' (h.ready hs) (by omega)) fun _ _ => .inr htaken

/-- A repetition whose rounds take tokens, though not to give every result. -/
theorem loop_of (h : ∀ state, Follows b anywhere (step state) (step' state) took')
    (hmore : ∀ r, r.2 = true → took' r) (hlast : ∀ r, took r.1 → took' r) (state : σ) :
    Follows b pre (Walk.loop step b.limit state) (Parser.iterate step' state) took :=
  fun _ hs _ => loop_arrives h hmore hlast state hs
    (Nat.lt_of_le_of_lt (Nat.sub_le _ _) hs.rounds)

end

/-- A repetition whose last round need not take anything. -/
theorem loop {step : σ → Walk (σ × Bool)} {step' : σ → Parser (σ × Bool)}
    (h : ∀ state, Follows b anywhere (step state) (step' state) fun r => r.2 = true) (state : σ) :
    Follows b pre (Walk.loop step b.limit state) (Parser.iterate step' state) never :=
  .loop_of h (fun _ => id) (fun _ => False.elim) state

/-- A repetition each round of which takes something. -/
theorem loop_taking {step : σ → Walk (σ × Bool)} {step' : σ → Parser (σ × Bool)}
    (h : ∀ state, Follows b anywhere (step state) (step' state) always) (state : σ) :
    Follows b pre (Walk.loop step b.limit state) (Parser.iterate step' state) always :=
  .loop_of h (fun _ _ => trivial) (fun _ _ => trivial) state

/-! ## The methods of the parser -/

section

variable {deeper : Entry → Walk Expr} {deeper' : Nested} {took : Expr → Prop}
  (h : ∀ entry, Follows b anywhere (deeper entry) (deeper' entry) always)

include h

/-- What is nested follows because the counts do, and takes a token. -/
theorem nested {entry : Entry} : Follows b pre (deeper entry) (deeper' entry) took :=
  (h entry).weaken.lax

theorem itemsAfter {took : List Expr → Prop} (close : Symbol) (first : Expr) :
    Follows b pre (Walk.itemsAfter b.limit deeper close first)
      (Parser.itemsAfter deeper' close first) took := by
  refine .bind (.loop (fun items => .eat ?_ .stop) [first]) fun _ =>
    .taking .expect fun _ => .pure
  exact .peek? fun _ => .ite .pure (.bind (.nested h) fun _ => .pure)

theorem slicePart {took : Option Expr → Prop} (hnone : ¬took none) :
    Follows b pre (Walk.slicePart deeper) (Parser.slicePart deeper') took :=
  .peek? fun _ => .ite (.pure_of hnone) (.taking (.nested h) fun _ => .pure)

theorem sliceFrom (target : Expr) (lower : Option Expr) :
    Follows b pre (Walk.sliceFrom deeper target lower) (Parser.sliceFrom deeper' target lower)
      took := by
  refine .taking .expect fun _ => .bind (.slicePart h nofun) fun upper => .eat ?_ ?_
  · exact .bind (.slicePart h nofun) fun _ => .bind .expect fun _ => .pure
  · exact .bind .pure fun _ => .bind .expect fun _ => .pure

theorem subscript (target : Expr) :
    Follows b pre (Walk.subscript b.limit deeper target) (Parser.subscript deeper' target)
      took := by
  refine .peek? fun _ => .ite (.sliceFrom h target none) (.taking (.nested h) fun first => ?_)
  refine .eat .pure (.peek? fun _ => .ite ?_ ?_)
  · exact .bind (.itemsAfter h .closeBracket first) fun _ => .pure
  · exact .sliceFrom h target (some first)

theorem argument {took : ArgumentState → Prop} (state : ArgumentState) :
    Follows b pre (Walk.argument deeper state) (Parser.argument deeper' state) took := by
  refine .eat (.bind (.nested h) fun _ => .pure) ?_
  refine .eat (.check (.bind (.nested h) fun _ => .pure)) ?_
  refine .peek? fun t => .peekSecond? fun t' => ?_
  split
  · refine .skip Nat.zero_lt_two (fun ts hts => ?_) (.bind (.nested h) fun _ => .pure)
    obtain ⟨⟨-, hname⟩, hassign⟩ := hts
    obtain ⟨ts, rfl⟩ := List.head?_eq_some_iff.1 hname
    obtain ⟨ts, rfl⟩ := List.head?_eq_some_iff.1 hassign
    simp
  · simp only
    exact .ite .fail_bind (.taking (.nested h) fun _ => .pure)

theorem arguments {took : List (Argument Expr) → Prop} :
    Follows b pre (Walk.arguments b.limit deeper) (Parser.arguments deeper') took := by
  refine .taking (.loop_taking (fun state => .eat .pure ?_) _) fun _ => .pure
  refine .taking (.argument h state) fun _ => .eat .pure ?_
  exact .bind .expect fun _ => .pure

theorem entries {took : List (Expr × Expr) → Prop} :
    Follows b pre (Walk.entries b.limit deeper) (Parser.entries deeper') took := by
  refine .taking (.loop_taking (fun entries => .eat .pure ?_) _) fun _ => .pure
  refine .taking (.nested h) fun _ => .eat ?value (.fail_bind)
  exact .bind (.nested h) fun _ => .eat .pure (.bind .expect fun _ => .pure)

theorem parameter {took : Option String × ParamState → Prop} (state : ParamState) :
    Follows b pre (Walk.parameter deeper state) (Parser.parameter deeper' state) took := by
  refine .offset fun pos hpos => .eat (.bind .expectName fun _ => .pure) (.eat ?star ?plain)
  case star =>
    exact .check (.eat .pure (.bind .expectName fun _ => .pure))
  case plain =>
    refine .taking .expectName fun name => .eat ?_ ?_
    · refine .bind (.bind (.nested h) fun _ => .pure) fun default => ?_
      exact .ite .pure (.checkAt hpos .pure)
    · exact .bind .pure fun default => .ite .pure (.checkAt hpos .pure)

theorem parameters {took : Params Expr → Prop} :
    Follows b pre (Walk.parameters b.limit deeper) (Parser.parameters deeper') took := by
  refine .taking (.loop_taking (fun state => .eat .pure (.check ?_)) _) fun _ =>
    .check .pure
  refine .offset fun pos hpos => .taking (.parameter h state) fun r => ?_
  obtain ⟨_ | name, state⟩ := r
  · exact .pure
  · exact .checkAt hpos (.eat .pure (.bind .expect fun _ => .pure))

theorem lambda : Follows b pre (Walk.lambda b.limit deeper) (Parser.lambda deeper') took :=
  .taking (.parameters h) fun _ => .bind (.nested h) fun _ => .pure

omit h in
theorem literalAt {value : Except SyntaxCause α} {make : α → Literal} {pos : Nat}
    (hpos : b.place pos) :
    Follows b pre (Walk.literalAt pos value make) (Parser.literalAt pos value make) never := by
  cases value with
  | ok a => exact .pure
  | error cause => exact .failAt hpos

theorem parenthesised :
    Follows b pre (Walk.parenthesised b.limit deeper) (Parser.parenthesised deeper') took :=
  .eat .pure (.taking (.nested h) fun first => .eat .pure
    (.bind (.itemsAfter h .closeParen first) fun _ => .pure))

theorem listDisplay :
    Follows b pre (Walk.listDisplay b.limit deeper) (Parser.listDisplay deeper') took :=
  .eat .pure (.taking (.nested h) fun first =>
    .bind (.itemsAfter h .closeBracket first) fun _ => .pure)

omit h in
theorem strings {value : String} :
    Follows b (fun ts => pre ts ∧ ts.head? = some (.str value))
      (do
        Walk.skip 1
        let text ← Walk.strings b.limit value
        Pure.pure (Expr.literal (.str text)))
      (do
        let text ← Parser.strings
        Pure.pure (Expr.literal (.str text))) took := by
  have hloop : Follows b anywhere (Walk.strings b.limit value) (iterate stringStep value)
      never := by
    refine .loop (fun state => .peek? fun t => ?_) value
    cases t with
    | none => exact .stop
    | some t =>
      cases t with
      | str more => exact .skip_one .pure
      | _ => exact .stop
  have heach : Follows b (fun ts => pre ts ∧ ts.head? = some (.str value))
      (do
        Walk.skip 1
        let text ← Walk.strings b.limit value
        Pure.pure (Expr.literal (.str text)))
      (do
        Parser.skip 1
        let text ← iterate stringStep value
        Pure.pure (Expr.literal (.str text))) took := .skip_one (.bind hloop fun _ => .pure)
  refine heach.congr fun c hc => ?_
  have hskip : Parser.skip 1 c = .ok ((), c.drop 1) := rfl
  rw [bind_of_ok (strings_eq hc.2), bind_of_ok hskip, bind_of_ok (iterate_stringStep value _)]

/-- Every token that an atom may begin with has its walk. -/
theorem atom : Follows b pre (Walk.atom b.limit deeper) (Parser.atom deeper') took := by
  refine .offset fun pos hpos => .peek? fun t => ?_
  cases t with
  | none => exact .fail
  | some t =>
    cases t with
    | str value => exact .strings
    | name text => exact .skip_one .pure
    | keyword k =>
      cases k
      case lambdaWord => exact .skip_one (.lambda h)
      case trueWord | falseWord | noneWord => exact .skip_one .pure
      all_goals exact .skip_one (.failAt hpos)
    | int text | float text | imaginary text => exact .skip_one (.literalAt hpos)
    | symbol s =>
      cases s
      case openParen => exact .skip_one (.parenthesised h)
      case openBracket => exact .skip_one (.listDisplay h)
      case openBrace => exact .skip_one (.bind (.entries h) fun _ => .pure)
      all_goals exact .skip_one (.failAt hpos)
    | _ => exact .skip_one (.failAt hpos)

/-- An atom and what trails it. -/
theorem primary : Follows b pre (Walk.primary b.limit deeper) (Parser.primary deeper') took := by
  refine .taking (.atom h) (.loop fun e => .eat (.bind .expectName fun _ => .pure) ?_)
  refine .eat (.bind (.arguments h) fun _ => .pure) ?_
  exact .eat (.bind (.subscript h e) fun _ => .pure) .stop

theorem power : Follows b pre (Walk.power b.limit deeper) (Parser.power deeper') took :=
  .taking (.primary h) fun _ => .eat (.bind (.nested h) fun _ => .pure) .pure

theorem signed : Follows b pre (Walk.signed b.limit deeper) (Parser.signed deeper') took := by
  refine .peek? fun t => ?_
  cases hop : t.bind sign? with
  | none => exact .power h
  | some op =>
    obtain ⟨t, rfl, -⟩ := Option.bind_eq_some_iff.1 hop
    exact .skip_one (.bind (.nested h) fun _ => .pure)

omit h in
/-- Operands joined on one level, whichever the operators are. -/
theorem joined {operand : Walk Expr} {operand' : Parser Expr}
    (h : Follows b anywhere operand operand' always)
    (join? : Token → Option (Expr → Expr → Expr)) :
    Follows b pre (Walk.joined b.limit operand join?) (Parser.joined operand' join?) took := by
  refine .taking h.weaken (.loop fun e => .peek? fun t => ?_)
  cases hjoin : t.bind join? with
  | none => exact .stop
  | some join =>
    obtain ⟨t, rfl, -⟩ := Option.bind_eq_some_iff.1 hjoin
    exact .skip_one (.bind h.lax fun _ => .pure)

/-- By recursion on the levels, the tightest of which joins signed operands. -/
theorem binary (levels : List (List (Symbol × BinaryOp))) :
    Follows b pre (Walk.binary b.limit deeper levels) (Parser.binary deeper' levels) took := by
  induction levels generalizing pre took with
  | nil => exact .signed h
  | cons level tighter ih => exact .joined ih _

theorem comparison :
    Follows b pre (Walk.comparison b.limit deeper) (Parser.comparison deeper') took := by
  refine .taking (.binary h _) fun _ => .bind (.loop (fun links => ?_) []) fun _ => .ite .pure .pure
  refine .peek? fun t => .peekSecond? fun t' => ?_
  cases hlink : link? t t' with
  | none => exact .stop
  | some r =>
    obtain ⟨link, width⟩ := r
    obtain rfl := link?_width hlink
    obtain ⟨first, more, heq, -⟩ := link.tokens_eq_cons
    refine .skip (by simp [heq]) (fun ts hts => ?_) (.bind (.binary h _) fun _ => .pure)
    obtain ⟨⟨-, rfl⟩, rfl⟩ := hts
    obtain ⟨rest, hrest⟩ := link?_ahead hlink
    rw [hrest, List.length_append]
    exact Nat.le_add_right _ _

/-- By recursion on the tokens, one of which every `not` takes. -/
theorem negated : Follows b pre (Walk.negated b.limit deeper) (Parser.negated deeper') took :=
  .eat (.bind (.nested h) fun _ => .pure) (.comparison h)

theorem conjunction :
    Follows b pre (Walk.conjunction b.limit deeper) (Parser.conjunction deeper') took :=
  .joined (.negated h) _

theorem disjunction :
    Follows b pre (Walk.disjunction b.limit deeper) (Parser.disjunction deeper') took :=
  .joined (.conjunction h) _

theorem conditional :
    Follows b pre (Walk.conditional b.limit deeper) (Parser.conditional deeper') took := by
  refine .taking (.disjunction h) fun _ => .eat (.bind (.disjunction h) fun _ => .eat ?_ .fail_bind)
    .pure
  exact .bind (.nested h) fun _ => .pure

theorem expression :
    Follows b pre (Walk.expression b.limit deeper) (Parser.expression deeper') took :=
  .eat (.lambda h) (.conditional h)

end

/-! ## Nesting -/

/-- No room is left for a level. -/
theorem tooDeep {w : Walk α} (hroom : b.room = 0) :
    Follows b pre (Walk.deepen w) (Parser.fail .tooDeep) took := by
  intro s hs hpre
  have hdepth : maxNesting ≤ s.depth := by
    rw [← hs.depth, hroom]
    exact Nat.le_refl _
  rw [Walk.deepen, if_pos hdepth]
  exact fail s hs hpre

/-- One level deeper there is one less left, and behind it the count is as before. -/
theorem deepen {w : Walk α} {p : Parser α} {room : Nat} (hroom : b.room = room + 1)
    (h : Follows { b with room := room } anywhere w p took) :
    Follows b pre (Walk.deepen w) p took := by
  intro s hs _
  have hdepth : s.depth + 1 + room = maxNesting := by
    have := hs.depth
    omega
  have hready : s.descend.Ready { b with room := room } :=
    { hs with
      depth := hdepth
      peak_le := Nat.max_le.2 ⟨hs.peak_le, by omega⟩ }
  have hback : ∀ s', s.descend.Reaches s' → s.Reaches s'.ascend := fun s' h =>
    { h with depth := by simp [Walker.ascend, h.depth, Walker.descend] }
  have hinner := h s.descend hready trivial
  rw [Walk.deepen, if_neg (by omega)]
  change Arrives b took s _ (p s.descend.cursor)
  generalize w s.descend = r, p s.descend.cursor = r' at hinner
  cases hinner with
  | ok h htook => exact .ok (hback _ h) htook
  | error h hplace => exact .error (hback _ h) hplace

end Follows

/-- What is nested is entered no more often than there are levels left, and once to be refused. -/
theorem enter_follows {place : Nat → Prop} {limit room rounds : Nat} (hrounds : room < rounds)
    (entry : Entry) :
    Follows ⟨place, limit, room⟩ anywhere (Walk.enter limit rounds entry)
      (Parser.nested room entry) always := by
  obtain ⟨rounds, rfl⟩ : ∃ n, rounds = n + 1 := ⟨rounds - 1, by omega⟩
  induction room generalizing rounds entry with
  | zero => exact .tooDeep rfl
  | succ room ih =>
    obtain ⟨rounds, rfl⟩ : ∃ n, rounds = n + 1 := ⟨rounds - 1, by omega⟩
    have hinner : ∀ entry, Follows ⟨place, limit, room⟩ anywhere
        (Walk.enter limit (rounds + 1) entry) (Parser.nested room entry) always :=
      fun entry => ih entry rounds (by omega)
    cases entry with
    | expression => exact .deepen rfl (.expression hinner)
    | negated => exact .deepen rfl (.negated hinner)
    | signed => exact .deepen rfl (.signed hinner)

/-- Every method of the walker follows the one of the parser. -/
theorem Rule.follows (rule : Rule α) {place : Nat → Prop} {limit room : Nat}
    (hroom : room < limit) :
    Follows ⟨place, limit, room⟩ anywhere (rule.walk limit) (rule.parser room) rule.Reads := by
  have h : ∀ entry, Follows ⟨place, limit, room⟩ anywhere (Walk.enter limit limit entry)
      (Parser.nested room entry) always := enter_follows hroom
  cases rule with
  | nested entry => exact .nested h
  | lambda => exact .lambda h
  | parameters => exact .parameters h
  | conditional => exact .conditional h
  | disjunction => exact .disjunction h
  | conjunction => exact .conjunction h
  | negated => exact .negated h
  | comparison => exact .comparison h
  | binary level => exact .binary h _
  | signed => exact .signed h
  | power => exact .power h
  | primary => exact .primary h
  | arguments => exact .arguments h
  | subscript target => exact .subscript h target
  | slicePart => exact .slicePart h (by simp [Rule.Reads])
  | itemsAfter close first => exact .itemsAfter h close first
  | atom => exact .atom h
  | entries => exact .entries h

end ExprLang
