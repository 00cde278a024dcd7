import ExprLang.Proofs.Parsing.Exactness

/-!
# Sources that are nested too deeply

`parse_tooDeep` : a source whose brackets balance and which begins with more opening parentheses
than expressions may nest is refused for its depth. On its way from a whole expression to the
parenthesis the parser takes nothing, and an error of what stands inside is the error of every rule
on the way (`nested_error`).
-/

namespace ExprLang

open ExprLang.Parser

namespace Parser

variable {α β : Type} {c : Cursor} {x : SyntaxError} {deeper : Nested}

/-- The first part of a rule fails, and the rule with it. -/
theorem bind_error {p : Parser β} {f : β → Parser α} (h : p c = .error x) :
    (p >>= f) c = .error x := by
  simp [Bind.bind, StateT.bind, Except.bind, h]

theorem bind_of_ok {p : Parser β} {f : β → Parser α} {b : β} {c' : Cursor} (h : p c = .ok (b, c')) :
    (p >>= f) c = f b c' := by
  simp [Bind.bind, StateT.bind, Except.bind, h]

theorem eat_other {f : Bool → Parser α} {t : Token} (ht : c.words.head? ≠ some t) :
    (Parser.eat t >>= f) c = f false c :=
  bind_of_ok (by rw [eat_eq, if_neg ht])

theorem peek?_bind {f : Option Token → Parser α} :
    (peek? >>= f) c = f c.words.head? c :=
  bind_of_ok (by simp [peek?, Cursor.words])

/-- An error in the first operand is that of all. -/
theorem joined_error {operand : Parser Expr} {join? : Token → Option (Expr → Expr → Expr)}
    (h : operand c = .error x) : joined operand join? c = .error x :=
  bind_error h

/-- An error in the first operand is that of every level. -/
theorem binary_error (levels : List (List (Symbol × BinaryOp)))
    (h : signed deeper c = .error x) : binary deeper levels c = .error x := by
  induction levels with
  | nil => exact h
  | cons level levels ih => exact joined_error ih

/-! ## Down to a parenthesis -/

variable {ts : List Token}

/-- What stands in parentheses fails, and the atom with it. -/
theorem atom_error (hc : c.words = .symbol .openParen :: ts)
    (hts : ts.head? ≠ some (.symbol .closeParen))
    (h : deeper .expression (c.drop 1) = .error x) : atom deeper c = .error x := by
  have hwords : (c.drop 1).words = ts := by simp [hc]
  have hinside : parenthesised deeper (c.drop 1) = .error x := by
    unfold parenthesised eatSymbol
    rw [eat_other (by rwa [hwords])]
    exact bind_error h
  unfold atom
  rw [bind_of_ok (show offset c = .ok (c.offset, c) from rfl), peek?_bind, hc]
  exact hinside

/-- What stands in parentheses fails, and every rule with it that does not begin otherwise. -/
theorem nested_error {room : Nat} (hc : c.words = .symbol .openParen :: ts)
    (hts : ts.head? ≠ some (.symbol .closeParen))
    (h : nested room .expression (c.drop 1) = .error x) :
    nested (room + 1) .expression c = .error x := by
  have hpower : power (nested room) c = .error x := bind_error (bind_error (atom_error hc hts h))
  have hsigned : signed (nested room) c = .error x := by
    unfold signed
    rw [peek?_bind, hc]
    exact hpower
  have hcomparison : comparison (nested room) c = .error x :=
    bind_error (binary_error binaryLevels hsigned)
  have hnegated : negated (nested room) c = .error x := by
    unfold negated eatKeyword
    rw [eat_other (by simp [hc])]
    exact hcomparison
  have hconditional : conditional (nested room) c = .error x :=
    bind_error (joined_error (joined_error hnegated))
  unfold nested expression eatKeyword
  rw [eat_other (by simp [hc])]
  exact hconditional

/-- More opening parentheses than there is room for. -/
theorem nested_tooDeep {room n : Nat} {rest : List Token} (hn : room < n)
    (hc : c.words = List.replicate n (.symbol .openParen) ++ rest) :
    ∃ pos, nested room .expression c = .error ⟨pos, .tooDeep⟩ := by
  induction room generalizing c n with
  | zero => exact ⟨c.offset, rfl⟩
  | succ room ih =>
    obtain ⟨m, rfl⟩ : ∃ m, n = m + 2 := ⟨n - 2, by omega⟩
    rw [List.replicate_succ, List.cons_append] at hc
    have hwords : (c.drop 1).words = List.replicate (m + 1) (.symbol .openParen) ++ rest := by
      simp [hc]
    obtain ⟨pos, hpos⟩ := ih (Nat.lt_of_succ_lt_succ hn) hwords
    exact ⟨pos, nested_error hc (by simp [List.replicate_succ]) hpos⟩

end Parser

/-- A source that begins with more opening parentheses than expressions may nest is refused. -/
theorem parse_tooDeep {source : String} {n : Nat} {rest : List Token} (hn : maxNesting < n)
    (hsource : sourceTokens source = List.replicate n (.symbol .openParen) ++ rest)
    (hchecked : Checked (sourceTokens source)) :
    ∃ pos, parse source = .error ⟨pos, .tooDeep⟩ := by
  obtain ⟨c, hc, hwords⟩ := hchecked.ofSource
  have hne : sourceTokens source ≠ [] := by
    rw [hsource]
    simp
    omega
  obtain ⟨pos, hpos⟩ := nested_tooDeep hn (hwords.trans hsource)
  have hwhole : whole c = .error ⟨pos, .tooDeep⟩ := bind_error hpos
  rw [parse_eq_whole hc hne]
  exact ⟨pos, by simp [runOn, StateT.run, hwhole, Except.map]⟩

end ExprLang
