import ExprLang.Proofs.Parsing.Steps
import Mathlib.Data.List.Forall2

/-!
# Runs of the parser that agree

What the parser makes of tokens depends on where they stand only in what errors say, and on the room
for nesting only in that there may be too little. So two runs on the same tokens come to the same
(`nested_agrees`) : the same tree with the same tokens left, or the same error at the corresponding
place, where the second run, which has no more room than the first, may be refused for its depth
instead.

Corresponding places are those related by `near`, whatever that is (`Cursor.Beside`). Every rule of
the parser keeps to this if what stands one level deeper does; there is a rule for each way to put
parsers together (`Agrees`).
-/

namespace ExprLang

open ExprLang.Parser

/-! ## The same tokens at corresponding places -/

/-- The same token, at corresponding places. -/
structure Located.Beside (near : Nat → Nat → Prop) (t u : Located) : Prop where
  token : t.token = u.token
  start : near t.start u.start

/-- The same tokens, at corresponding places. -/
structure Cursor.Beside (near : Nat → Nat → Prop) (c d : Cursor) : Prop where
  tokens : List.Forall₂ (Located.Beside near) c.tokens d.tokens
  ending : near c.ending d.ending

variable {near : Nat → Nat → Prop} {deep : Prop} {α β σ : Type} {c d : Cursor}

namespace Cursor.Beside

/-- As many tokens dropped from both. -/
theorem drop (h : c.Beside near d) (n : Nat) : (c.drop n).Beside near (d.drop n) :=
  ⟨List.forall₂_drop n h.tokens, h.ending⟩

theorem words (h : c.Beside near d) : c.words = d.words := by
  have hmap : List.Forall₂ (· = ·) c.words d.words :=
    List.forall₂_map_left_iff.2 (List.forall₂_map_right_iff.2 (h.tokens.imp fun _ _ => (·.token)))
  exact List.forall₂_eq_eq_eq ▸ hmap

theorem left (h : c.Beside near d) : c.left = d.left := by
  rw [c.left_eq, d.left_eq, h.tokens.length_eq]

/-- The next tokens stand near one another, and so do the ends. -/
theorem offset (h : c.Beside near d) : near c.offset d.offset := by
  obtain ⟨htokens, hending⟩ := h
  unfold Cursor.offset
  generalize c.tokens = ts, d.tokens = us at htokens
  cases htokens with
  | nil => exact hending
  | cons ht => exact ht.start

end Cursor.Beside

/-! ## Parsers that agree -/

/-- Results that are the same but for places, if the second is not that there was no room. -/
inductive Agreed (near : Nat → Nat → Prop) (deep : Prop) :
    Except SyntaxError (α × Cursor) → Except SyntaxError (α × Cursor) → Prop
  | ok (a : α) {c d : Cursor} (h : c.Beside near d) : Agreed near deep (.ok (a, c)) (.ok (a, d))
  | error (cause : SyntaxCause) {pos pos' : Nat} (h : near pos pos') :
    Agreed near deep (.error ⟨pos, cause⟩) (.error ⟨pos', cause⟩)
  | tooDeep {result : Except SyntaxError (α × Cursor)} {pos : Nat} (h : deep) :
    Agreed near deep result (.error ⟨pos, .tooDeep⟩)

/-- Parsers that come to the same on the same tokens. -/
def Agrees (near : Nat → Nat → Prop) (deep : Prop) (p q : Parser α) : Prop :=
  ∀ c d, c.Beside near d → Agreed near deep (p c) (q d)

namespace Agrees

theorem pure (a : α) : Agrees near deep (pure a) (pure a) :=
  fun _ _ h => .ok a h

theorem bind {p q : Parser α} {f g : α → Parser β} (hp : Agrees near deep p q)
    (hf : ∀ a, Agrees near deep (f a) (g a)) : Agrees near deep (p >>= f) (q >>= g) := by
  intro c d h
  have hfirst := hp c d h
  simp only [Bind.bind, StateT.bind, Except.bind]
  generalize p c = r, q d = r' at hfirst
  cases hfirst with
  | ok a h => exact hf a _ _ h
  | error cause h => exact .error cause h
  | tooDeep h => exact .tooDeep h

/-- What is done with the offset of the next token is done at corresponding places. -/
theorem offset {f g : Nat → Parser β}
    (h : ∀ pos pos', near pos pos' → Agrees near deep (f pos) (g pos')) :
    Agrees near deep (Parser.offset >>= f) (Parser.offset >>= g) :=
  fun c d hcd => h c.offset d.offset hcd.offset c d hcd

/-- Agreement goes through the branches of one condition. -/
theorem ite {b : Prop} [Decidable b] {p q p' q' : Parser α} (h : Agrees near deep p q)
    (h' : Agrees near deep p' q') :
    Agrees near deep (if b then p else p') (if b then q else q') := by
  split
  · exact h
  · exact h'

theorem failAt (cause : SyntaxCause) {pos pos' : Nat} (h : near pos pos') :
    Agrees (α := α) near deep (Parser.failAt pos cause) (Parser.failAt pos' cause) :=
  fun _ _ _ => .error cause h

theorem fail (cause : SyntaxCause) :
    Agrees (α := α) near deep (Parser.fail cause) (Parser.fail cause) :=
  fun _ _ h => .error cause h.offset

/-- A check that both runs make, and what follows it. -/
theorem check {b : Prop} [Decidable b] (cause : SyntaxCause) {p q : Unit → Parser α}
    (h : Agrees near deep (p ()) (q ())) :
    Agrees near deep (if b then Parser.fail cause >>= p else p ())
      (if b then Parser.fail cause >>= q else q ()) :=
  .ite (.bind (.fail cause) fun _ => h) h

/-- A check that says where it stands, and what follows it. -/
theorem checkAt {b : Prop} [Decidable b] (cause : SyntaxCause) {pos pos' : Nat}
    (hpos : near pos pos') {p q : Unit → Parser α} (h : Agrees near deep (p ()) (q ())) :
    Agrees near deep (if b then Parser.failAt pos cause >>= p else p ())
      (if b then Parser.failAt pos' cause >>= q else q ()) :=
  .ite (.bind (.failAt cause hpos) fun _ => h) h

theorem unexpected : Agrees (α := α) near deep Parser.unexpected Parser.unexpected := by
  rintro c d ⟨htokens, hending⟩
  unfold Parser.unexpected
  generalize c.tokens = ts, d.tokens = us at htokens
  cases htokens with
  | nil => exact .error .unexpectedEnd hending
  | cons ht =>
    dsimp only
    rw [ht.token]
    exact .error _ ht.start

theorem peek? : Agrees near deep Parser.peek? Parser.peek? := by
  intro c d h
  rw [peek?_eq_ok.2 ⟨rfl, rfl⟩, peek?_eq_ok.2 ⟨rfl, rfl⟩, h.words]
  exact .ok _ h

theorem peekSecond? : Agrees near deep Parser.peekSecond? Parser.peekSecond? := by
  intro c d h
  rw [peekSecond?_eq_ok.2 ⟨rfl, rfl⟩, peekSecond?_eq_ok.2 ⟨rfl, rfl⟩, h.words]
  exact .ok _ h

theorem skip (n : Nat) : Agrees near deep (Parser.skip n) (Parser.skip n) :=
  fun _ _ h => .ok () (h.drop n)

theorem eat (t : Token) : Agrees near deep (Parser.eat t) (Parser.eat t) := by
  intro c d h
  rw [eat_eq, eat_eq, h.words]
  split
  · exact .ok true (h.drop 1)
  · exact .ok false h

theorem expect (s : Symbol) : Agrees near deep (Parser.expect s) (Parser.expect s) :=
  .bind (.eat _) fun _ => .ite (.pure _) .unexpected

theorem expectName : Agrees near deep Parser.expectName Parser.expectName := by
  refine .bind .peek? fun t => ?_
  split
  · exact .bind (.skip 1) fun _ => .pure _
  · exact .unexpected

theorem expectEnd : Agrees near deep Parser.expectEnd Parser.expectEnd :=
  .bind .peek? fun _ => .ite .unexpected (.pure _)

/-- Rounds that agree take as many tokens, so there are as many rounds. -/
theorem iterate {step step' : σ → Parser (σ × Bool)}
    (h : ∀ s, Agrees near deep (step s) (step' s)) (s : σ) :
    Agrees near deep (Parser.iterate step s) (Parser.iterate step' s) := by
  intro c d hcd
  fun_induction Parser.iterate step s c generalizing d with
  | case1 s c e hstep =>
    have hagreed := h s c d hcd
    rw [Parser.iterate.eq_1 step' s d]
    rw [hstep] at hagreed
    generalize step' s d = r at hagreed
    cases hagreed with
    | error cause h => exact .error cause h
    | tooDeep h => exact .tooDeep h
  | case2 s c s₁ more c₁ hstep hmore ih =>
    have hagreed := h s c d hcd
    rw [Parser.iterate.eq_1 step' s d]
    rw [hstep] at hagreed
    generalize step' s d = r at hagreed
    cases hagreed with
    | @ok _ _ d₁ hcd₁ =>
      have hmore' : more = true ∧ d₁.left < d.left := by rwa [← hcd₁.left, ← hcd.left]
      simp only [hmore', and_self, ↓reduceDIte]
      exact ih _ hcd₁
    | tooDeep h => exact .tooDeep h
  | case3 s c s₁ more c₁ hstep hmore =>
    have hagreed := h s c d hcd
    rw [Parser.iterate.eq_1 step' s d]
    rw [hstep] at hagreed
    generalize step' s d = r at hagreed
    cases hagreed with
    | @ok _ _ d₁ hcd₁ =>
      have hmore' : ¬(more = true ∧ d₁.left < d.left) := by rwa [← hcd₁.left, ← hcd.left]
      simp only [hmore', ↓reduceDIte]
      exact .ok _ hcd₁
    | tooDeep h => exact .tooDeep h

theorem leadingStrings_eq {ts us : List Located}
    (h : List.Forall₂ (Located.Beside near) ts us) : leadingStrings ts = leadingStrings us := by
  induction h with
  | nil => rfl
  | cons ht _ ih => simp only [leadingStrings, ht.token, ih]

theorem strings : Agrees near deep Parser.strings Parser.strings := by
  intro c d h
  unfold Parser.strings
  rw [leadingStrings_eq h.tokens]
  exact .ok _ (h.drop _)

theorem literalAt {value : Except SyntaxCause α} {make : α → Literal} {pos pos' : Nat}
    (h : near pos pos') :
    Agrees near deep (Parser.literalAt pos value make) (Parser.literalAt pos' value make) := by
  cases value with
  | ok a => exact .pure _
  | error cause => exact .failAt cause h

/-! ## The rules of the parser -/

section

variable {deeper deeper' : Nested} (h : ∀ entry, Agrees near deep (deeper entry) (deeper' entry))

include h

theorem itemsAfter (close : Symbol) (first : Expr) :
    Agrees near deep (Parser.itemsAfter deeper close first)
      (Parser.itemsAfter deeper' close first) := by
  have hstep : ∀ items,
      Agrees near deep (itemStep deeper close items) (itemStep deeper' close items) :=
    fun items => .bind (.eat _) fun _ => .ite
      (.bind .peek? fun _ => .ite (.pure _) (.bind (h .expression) fun _ => .pure _)) (.pure _)
  exact .bind (.iterate hstep [first]) fun _ => .bind (.expect close) fun _ => .pure _

theorem slicePart : Agrees near deep (Parser.slicePart deeper) (Parser.slicePart deeper') :=
  .bind .peek? fun _ => .ite (.pure _) (.bind (h .expression) fun _ => .pure _)

theorem sliceFrom (target : Expr) (lower : Option Expr) :
    Agrees near deep (Parser.sliceFrom deeper target lower)
      (Parser.sliceFrom deeper' target lower) := by
  refine .bind (.expect .colon) fun _ => .bind (.slicePart h) fun upper => ?_
  refine .bind (.eat _) fun _ => ?_
  exact .ite (.bind (.slicePart h) fun _ => .bind (.expect _) fun _ => .pure _)
    (.bind (.pure _) fun _ => .bind (.expect _) fun _ => .pure _)

theorem subscript (target : Expr) :
    Agrees near deep (Parser.subscript deeper target) (Parser.subscript deeper' target) := by
  refine .bind .peek? fun _ => .ite (.sliceFrom h target none) ?_
  refine .bind (h .expression) fun first => ?_
  refine .bind (.eat _) fun _ => .ite (.pure _) (.bind .peek? fun _ => .ite ?_ ?_)
  · exact .bind (.itemsAfter h .closeBracket first) fun _ => .pure _
  · exact .sliceFrom h target (some first)

theorem argument (s : ArgumentState) :
    Agrees near deep (Parser.argument deeper s) (Parser.argument deeper' s) := by
  refine .bind (.eat _) fun _ => .ite (.bind (h .expression) fun _ => .pure _) ?_
  refine .bind (.eat _) fun _ => .ite ?_ (.bind .peek? fun t => .bind .peekSecond? fun t' => ?_)
  · exact .check _ (.bind (h .expression) fun _ => .pure _)
  · split
    · exact .bind (.skip 2) fun _ => .bind (h .expression) fun _ => .pure _
    · exact .check _ (.bind (h .expression) fun _ => .pure _)

theorem arguments : Agrees near deep (Parser.arguments deeper) (Parser.arguments deeper') := by
  have hstep : ∀ s, Agrees near deep (argumentStep deeper s) (argumentStep deeper' s) := fun s =>
    .bind (.eat _) fun _ => .ite (.pure _) (.bind (.argument h s) fun _ => .bind (.eat _) fun _ =>
      .ite (.pure _) (.bind (.expect .closeParen) fun _ => .pure _))
  exact .bind (.iterate hstep _) fun _ => .pure _

theorem entries : Agrees near deep (Parser.entries deeper) (Parser.entries deeper') := by
  have hstep : ∀ s, Agrees near deep (entryStep deeper s) (entryStep deeper' s) := by
    intro s
    refine .bind (.eat _) fun _ => .ite (.pure _) (.bind (h .expression) fun _ => ?_)
    refine .bind (.eat _) fun _ => .ite ?value (.bind (.fail _) fun _ => ?value)
    exact .bind (h .expression) fun _ => .bind (.eat _) fun _ => .ite (.pure _)
      (.bind (.expect .closeBrace) fun _ => .pure _)
  exact .bind (.iterate hstep []) fun _ => .pure _

theorem parameter (s : ParamState) :
    Agrees near deep (Parser.parameter deeper s) (Parser.parameter deeper' s) := by
  refine .offset fun pos pos' hpos => .bind (.eat _) fun _ =>
    .ite (.bind .expectName fun _ => .pure _) (.bind (.eat _) fun _ => .ite ?star ?plain)
  case star =>
    exact .check _ (.bind (.eat _) fun _ => .ite (.pure _) (.bind .expectName fun _ => .pure _))
  case plain =>
    refine .bind .expectName fun name => .bind (.eat _) fun _ => .ite ?_ ?_
    · refine .bind (.bind (h .expression) fun _ => .pure _) fun default => ?_
      exact .ite (.pure _) (.checkAt _ hpos (.pure _))
    · exact .bind (.pure _) fun default => .ite (.pure _) (.checkAt _ hpos (.pure _))

theorem parameters : Agrees near deep (Parser.parameters deeper) (Parser.parameters deeper') := by
  have hstep : ∀ s, Agrees near deep (parameterStep deeper s) (parameterStep deeper' s) := by
    intro s
    refine .bind (.eat _) fun _ => .ite (.pure _) (.check _ ?_)
    refine .offset fun pos pos' hpos => .bind (.parameter h s) fun r => ?_
    obtain ⟨_ | name, s⟩ := r
    · exact .pure _
    · exact .checkAt _ hpos (.bind (.eat _) fun _ => .ite (.pure _)
        (.bind (.expect .colon) fun _ => .pure _))
  exact .bind (.iterate hstep _) fun _ => .check _ (.pure _)

theorem lambda : Agrees near deep (Parser.lambda deeper) (Parser.lambda deeper') :=
  .bind (.parameters h) fun _ => .bind (h .expression) fun _ => .pure _

theorem parenthesised :
    Agrees near deep (Parser.parenthesised deeper) (Parser.parenthesised deeper') :=
  .bind (.eat _) fun _ => .ite (.pure _) (.bind (h .expression) fun first => .bind (.eat _) fun _ =>
    .ite (.pure _) (.bind (.itemsAfter h .closeParen first) fun _ => .pure _))

theorem listDisplay : Agrees near deep (Parser.listDisplay deeper) (Parser.listDisplay deeper') :=
  .bind (.eat _) fun _ => .ite (.pure _) (.bind (h .expression) fun first =>
    .bind (.itemsAfter h .closeBracket first) fun _ => .pure _)

theorem atom : Agrees near deep (Parser.atom deeper) (Parser.atom deeper') := by
  refine .offset fun pos pos' hpos => .bind .peek? fun t => ?_
  split
  · exact .fail _
  · exact .bind .strings fun _ => .pure _
  · refine .bind (.skip 1) fun _ => ?_
    split
    case h_5 => exact .lambda h
    case h_9 => exact .parenthesised h
    case h_10 => exact .listDisplay h
    case h_11 => exact .bind (.entries h) fun _ => .pure _
    all_goals first | exact .pure _ | exact .literalAt hpos | exact .failAt _ hpos

theorem primary : Agrees near deep (Parser.primary deeper) (Parser.primary deeper') := by
  have hstep : ∀ e, Agrees near deep (trailStep deeper e) (trailStep deeper' e) := fun e =>
    .bind (.eat _) fun _ => .ite (.bind .expectName fun _ => .pure _) (.bind (.eat _) fun _ =>
      .ite (.bind (.arguments h) fun _ => .pure _) (.bind (.eat _) fun _ =>
        .ite (.bind (.subscript h e) fun _ => .pure _) (.pure _)))
  exact .bind (.atom h) (.iterate hstep)

theorem power : Agrees near deep (Parser.power deeper) (Parser.power deeper') :=
  .bind (.primary h) fun _ => .bind (.eat _) fun _ => .ite (.bind (h .signed) fun _ => .pure _)
    (.pure _)

theorem signed : Agrees near deep (Parser.signed deeper) (Parser.signed deeper') := by
  refine .bind .peek? fun t => ?_
  split
  · exact .bind (.skip 1) fun _ => .bind (h .signed) fun _ => .pure _
  · exact .power h

omit h in
theorem joined {operand operand' : Parser Expr} (h : Agrees near deep operand operand')
    (join? : Token → Option (Expr → Expr → Expr)) :
    Agrees near deep (Parser.joined operand join?) (Parser.joined operand' join?) := by
  have hstep : ∀ e, Agrees near deep (joinStep operand join? e) (joinStep operand' join? e) := by
    refine fun e => .bind .peek? fun t => ?_
    split
    · exact .bind (.skip 1) fun _ => .bind h fun _ => .pure _
    · exact .pure _
  exact .bind h (.iterate hstep)

theorem binary (levels : List (List (Symbol × BinaryOp))) :
    Agrees near deep (Parser.binary deeper levels) (Parser.binary deeper' levels) := by
  induction levels with
  | nil => exact .signed h
  | cons level tighter ih => exact .joined ih _

theorem comparison : Agrees near deep (Parser.comparison deeper) (Parser.comparison deeper') := by
  have hstep : ∀ links, Agrees near deep (linkStep deeper links) (linkStep deeper' links) := by
    refine fun links => .bind .peek? fun t => .bind .peekSecond? fun t' => ?_
    split
    · exact .bind (.skip _) fun _ => .bind (.binary h _) fun _ => .pure _
    · exact .pure _
  exact .bind (.binary h _) fun _ => .bind (.iterate hstep []) fun _ => .ite (.pure _) (.pure _)

theorem negated : Agrees near deep (Parser.negated deeper) (Parser.negated deeper') :=
  .bind (.eat _) fun _ => .ite (.bind (h .negated) fun _ => .pure _) (.comparison h)

theorem conjunction : Agrees near deep (Parser.conjunction deeper) (Parser.conjunction deeper') :=
  .joined (.negated h) _

theorem disjunction : Agrees near deep (Parser.disjunction deeper) (Parser.disjunction deeper') :=
  .joined (.conjunction h) _

theorem conditional :
    Agrees near deep (Parser.conditional deeper) (Parser.conditional deeper') := by
  refine .bind (.disjunction h) fun _ => .bind (.eat _) fun _ => .ite ?_ (.pure _)
  refine .bind (.disjunction h) fun _ => .bind (.eat _) fun _ => .ite ?otherwise
    (.bind (.fail _) fun _ => ?otherwise)
  exact .bind (h .expression) fun _ => .pure _

theorem expression : Agrees near deep (Parser.expression deeper) (Parser.expression deeper') :=
  .bind (.eat _) fun _ => .ite (.lambda h) (.conditional h)

end

end Agrees

/-- The parser comes to the same on the same tokens, with as much room. With less it may find that
there is not enough. -/
theorem nested_agrees {room room' : Nat} (hroom : room' ≤ room) (hdeep : room' < room → deep)
    (entry : Entry) : Agrees near deep (nested room entry) (nested room' entry) := by
  induction room generalizing room' entry with
  | zero =>
    obtain rfl : room' = 0 := by omega
    exact .fail .tooDeep
  | succ room ih =>
    cases room' with
    | zero => exact fun c d _ => .tooDeep (hdeep (Nat.succ_pos room))
    | succ room' =>
      have hinner : ∀ entry, Agrees near deep (nested room entry) (nested room' entry) :=
        ih (Nat.le_of_succ_le_succ hroom) fun hlt => hdeep (Nat.succ_lt_succ hlt)
      cases entry with
      | expression => exact .expression hinner
      | negated => exact .negated hinner
      | signed => exact .signed hinner

end ExprLang
