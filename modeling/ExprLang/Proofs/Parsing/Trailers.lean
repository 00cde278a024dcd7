import ExprLang.Proofs.Parsing.Reading

/-!
# Reading lists of expressions

What stands in brackets with commas between is read in a loop, and so are the trailers of a
primary. `leads_itemsAfter` and `leads_argumentSteps` follow the loops item by item, for as long as
`Separated` says that a comma comes; `Reads.dot`, `Reads.call`, `Reads.item`, `Reads.itemTuple` and
`Reads.slice` answer the derivation rules of the trailers.
-/

namespace ExprLang

open ExprLang.Parser

variable {ts us rest : List Token} {e : Expr}

/-! ## Lists of expressions -/

/-- Symbols that may stand after an item. -/
def Symbol.closes (s : Symbol) : Prop :=
  s.continuation = 0 ∧ (Token.symbol s).opening = 0 ∧ s ≠ .comma

/-- What is needed of each item of a list to read the list in a count of tokens. -/
structure Items (count : Nat) (items : List Phrase) : Prop where
  derives : ∀ p ∈ items, Derives False .expression p.tokens p.tree
  reads : ∀ p ∈ items, Reads .expression p.tokens p.tree
  short : ∀ p ∈ items, p.tokens.length < count

/-- The first item can be read. -/
theorem Items.head {count : Nat} {p : Phrase} {items : List Phrase}
    (h : Items count (p :: items)) {room : Nat} (hrest : continuation rest < 1) :
    Leads (room < count) (nested room .expression) p.tokens rest (pure p.tree) :=
  (h.reads p (by simp)).within .expression hrest (h.short p (by simp))

theorem Items.mono {count : Nat} {items items' : List Phrase} (h : Items count items)
    (hsub : items' ⊆ items) : Items count items' :=
  ⟨fun q hq => h.derives q (hsub hq), fun q hq => h.reads q (hsub hq),
    fun q hq => h.short q (hsub hq)⟩

theorem Items.tail {count : Nat} {p : Phrase} {items : List Phrase}
    (h : Items count (p :: items)) : Items count items :=
  h.mono (List.subset_cons_self _ _)

/-- The items after a first comma, up to the closing symbol. -/
theorem leads_items {count room : Nat} {close : Symbol} {items : List Phrase}
    (hclose : close.closes) (h : Items count items) (hs : Separated (items.map Phrase.tokens) ts)
    (done : List Expr) :
    Leads (room < count) (iterate (itemStep (nested room) close) done) (.symbol .comma :: ts)
      (.symbol close :: rest) (pure ((items.map Phrase.tree).reverse ++ done)) := by
  obtain ⟨hgo, hopen, hcomma⟩ := hclose
  have hstop : continuation (.symbol close :: rest) < 1 := by simp [continuation, hgo]
  have hend : ∀ acc, Leads (room < count) (iterate (itemStep (nested room) close) acc) []
      (.symbol close :: rest) (pure acc) :=
    fun acc => .iterate_stop (.not_eat (by simpa using hcomma) (.refl _ _))
  induction items generalizing ts done with
  | nil =>
    cases hs
    refine .iterate_stop (.eat (.peek? ?_))
    simpa using Leads.refl _ _
  | cons p items ih =>
    have hhead : ∀ us, (p.tokens ++ us).head? ≠ some (.symbol close) := fun us =>
      (h.derives p (by simp)).head?_ne (by simp [Level.opening, hopen])
    have hstep : ∀ us, continuation us < 1 → Leads (room < count)
        (itemStep (nested room) close done) (.symbol .comma :: p.tokens) us
        (pure (p.tree :: done, true)) := by
      intro us hus
      refine .eat (.peek? ?_)
      rw [if_neg (hhead us)]
      exact .bind (h.head hus)
    generalize hitems : (p :: items).map Phrase.tokens = all at hs
    cases hs with
    | none => simp at hitems
    | last ts =>
      obtain ⟨rfl, rfl⟩ : p.tokens = ts ∧ items = [] := by simpa using hitems
      exact .trans_nil (.iterate (List.cons_ne_nil _ _) (hstep _ hstop)) (hend _)
    | comma ts hs =>
      obtain ⟨rfl, rfl⟩ := List.cons.inj hitems
      refine .trans (.iterate (List.cons_ne_nil _ _) (hstep _ (by simp [continuation,
        Symbol.continuation]))) ?_
      simpa using ih h.tail hs (p.tree :: done)

/-- All that follows a first item, up to the closing symbol and with it. -/
theorem leads_itemsAfter {count room : Nat} {close : Symbol} {items : List Phrase} {first : Expr}
    (hclose : close.closes) (h : Items count items)
    (hs : Separated (items.map Phrase.tokens) ts) :
    Leads (room < count) (itemsAfter (nested room) close first)
      (.symbol .comma :: (ts ++ [.symbol close])) rest (pure (first :: items.map Phrase.tree)) := by
  rw [← List.cons_append]
  refine .andThen (leads_items hclose h hs [first]) (.expect ?_)
  simpa using Leads.refl _ _

/-! ## Attributes and subscripts -/

/-- A primary goes on with whatever the loop of trailers takes. -/
theorem Reads.trail {e' : Expr} (h : Reads .primary ts e) (hus : us ≠ [])
    (hgo : ∀ rest, continuation (us ++ rest) < 13)
    (hstep : ∀ room rest, Leads (room < ts.length + us.length) (trailStep (nested room) e) us rest
      (pure (e', true))) : Reads .primary (ts ++ us) e' := by
  intro room rest _
  rw [List.length_append]
  exact .trans (.weaken (h room _ (hgo rest)) (by omega)) (.iterate hus (hstep room rest))

theorem Reads.dot {name : String} (h : Reads .primary ts e) :
    Reads .primary (ts ++ [.symbol .dot, .name name]) (.attribute e name) := by
  refine h.trail (List.cons_ne_nil _ _) (fun rest => Nat.lt_succ_self 12) fun room rest => ?_
  exact .eat (.expectName (.refl _ _))

/-- What follows the opening bracket of a subscript is read by `subscript`. -/
theorem Reads.subscript {e' : Expr} (h : Reads .primary ts e)
    (hstep : ∀ room rest, Leads (room < ts.length + us.length + 1)
      (Parser.subscript (nested room) e) us rest (pure e')) :
    Reads .primary (ts ++ .symbol .openBracket :: us) e' := by
  refine h.trail (List.cons_ne_nil _ _) (fun rest => Nat.lt_succ_self 12) fun room rest => ?_
  have hdot : (.symbol .openBracket :: us ++ rest).head? ≠ some (Token.symbol .dot) := by simp
  have hparen : (.symbol .openBracket :: us ++ rest).head? ≠ some (Token.symbol .openParen) := by
    simp
  exact .not_eat hdot (.not_eat hparen (.eat (.bind (hstep room rest))))

theorem closeBracket_closes : Symbol.closes .closeBracket := by
  simp [Symbol.closes, Symbol.continuation, Token.opening]

theorem closeParen_closes : Symbol.closes .closeParen := by
  simp [Symbol.closes, Symbol.continuation, Token.opening]

theorem Reads.item {is : List Token} {index : Expr} (h : Reads .primary ts e)
    (hd : Derives False .expression is index) (hi : Reads .expression is index) :
    Reads .primary (ts ++ .symbol .openBracket :: (is ++ [.symbol .closeBracket]))
      (.item e index) := by
  refine h.subscript fun room rest => ?_
  have hcolon : (is ++ [Token.symbol .closeBracket] ++ rest).head? ≠ some (.symbol .colon) := by
    rw [List.append_assoc]
    exact hd.head?_ne (by decide)
  refine .peek? ?_
  rw [if_neg hcolon]
  refine .andThen (hi.within .expression (Nat.lt_succ_self 0) ?_) (.eat (.refl _ _))
  simp only [List.length_append, List.length_cons]
  omega

/-- An item under a tuple without brackets. -/
theorem Reads.itemTuple {is : List Token} {first : Phrase} {items : List Phrase}
    (h : Reads .primary ts e)
    (hds : ∀ p ∈ first :: items, Derives False .expression p.tokens p.tree)
    (hs : ∀ p ∈ first :: items, Reads .expression p.tokens p.tree)
    (hsep : Separated (items.map Phrase.tokens) is) :
    Reads .primary (ts ++ .symbol .openBracket ::
        (first.tokens ++ .symbol .comma :: (is ++ [.symbol .closeBracket])))
      (.item e (.tuple ((first :: items).map Phrase.tree))) := by
  refine h.subscript fun room rest => ?_
  generalize hcount : _ + 1 = count
  simp only [List.length_append, List.length_cons] at hcount
  have hitems : Items count (first :: items) := by
    refine ⟨hds, hs, fun p hp => ?_⟩
    rcases List.mem_cons.1 hp with rfl | hp
    · omega
    · have := hsep.length_le _ (List.mem_map_of_mem hp)
      omega
  have hcolon : (first.tokens ++ Token.symbol .comma :: (is ++ [.symbol .closeBracket])
      ++ rest).head? ≠ some (.symbol .colon) := by
    rw [List.append_assoc]
    exact (hds first (by simp)).head?_ne (by decide)
  have hcomma : continuation (.symbol .comma :: (is ++ [.symbol .closeBracket]) ++ rest) < 1 :=
    Nat.lt_succ_self 0
  refine .peek? ?_
  rw [if_neg hcolon]
  refine .andThen (hitems.head hcomma) (.not_eat (by simp) (.peek? ?_))
  rw [if_pos (by simp)]
  exact .bind (leads_itemsAfter closeBracket_closes hitems.tail hsep)

/-- A part of a slice, in front of a colon or of the closing bracket. -/
theorem leads_slicePart {count room : Nat} {part : Option Phrase}
    (hd : ∀ p ∈ part, Derives False .expression p.tokens p.tree)
    (h : ∀ p ∈ part, Reads .expression p.tokens p.tree)
    (hcount : (partTokens part).length < count)
    (hrest : rest.head? = some (.symbol .colon) ∨ rest.head? = some (.symbol .closeBracket)) :
    Leads (room < count) (slicePart (nested room)) (partTokens part) rest
      (pure (part.map Phrase.tree)) := by
  cases part with
  | none =>
    refine .peek? ?_
    rw [if_pos (by simpa [partTokens] using hrest)]
    exact .refl _ _
  | some p =>
    have hne : ∀ t : Token, t.opening = 0 → (partTokens (some p) ++ rest).head? ≠ some t :=
      fun t ht => (hd p rfl).head?_ne (by simp [ht, Level.opening])
    have hstop : continuation rest < 1 := by
      rcases hrest with hrest | hrest <;> obtain ⟨rest, rfl⟩ := List.head?_eq_some_iff.1 hrest <;>
        exact Nat.lt_succ_self 0
    refine .peek? ?_
    rw [if_neg (not_or.2 ⟨hne (.symbol .colon) rfl, hne (.symbol .closeBracket) rfl⟩)]
    exact .bind ((h p rfl).within .expression hstop hcount)

/-- A slice from its first colon on. -/
theorem leads_sliceFrom {count room : Nat} {lower : Option Expr} {upper : Option Phrase}
    {step : Option (Option Phrase)}
    (hdu : ∀ p ∈ upper, Derives False .expression p.tokens p.tree)
    (hds : ∀ p ∈ step.join, Derives False .expression p.tokens p.tree)
    (hu : ∀ p ∈ upper, Reads .expression p.tokens p.tree)
    (hs : ∀ p ∈ step.join, Reads .expression p.tokens p.tree)
    (hcount : (partTokens upper).length + (stepTokens step).length < count) :
    Leads (room < count) (sliceFrom (nested room) e lower)
      (.symbol .colon :: (partTokens upper ++ (stepTokens step ++ [.symbol .closeBracket]))) rest
      (pure (.slice e lower (upper.map Phrase.tree) (step.join.map Phrase.tree))) := by
  refine .expect ?_
  cases step with
  | none =>
    refine .andThen (leads_slicePart hdu hu (by omega) (.inr rfl)) ?_
    refine .not_eat (by simp [stepTokens]) ?_
    simp only [Bool.false_eq_true, ↓reduceIte, pure_bind]
    exact .expect (.refl _ _)
  | some step =>
    simp only [stepTokens, Option.map_some, Option.getD_some, List.length_cons] at hcount ⊢
    refine .andThen (leads_slicePart hdu hu (by omega) (.inl rfl)) (.eat ?_)
    refine .andThen (leads_slicePart hds hs (by omega) (.inr rfl)) ?_
    exact .expect (.refl _ _)

/-- A slice, any part of which may be left out. -/
theorem Reads.slice {lower upper : Option Phrase} {step : Option (Option Phrase)}
    (h : Reads .primary ts e)
    (hdl : ∀ p ∈ lower, Derives False .expression p.tokens p.tree)
    (hdu : ∀ p ∈ upper, Derives False .expression p.tokens p.tree)
    (hds : ∀ p ∈ step.join, Derives False .expression p.tokens p.tree)
    (hl : ∀ p ∈ lower, Reads .expression p.tokens p.tree)
    (hu : ∀ p ∈ upper, Reads .expression p.tokens p.tree)
    (hs : ∀ p ∈ step.join, Reads .expression p.tokens p.tree) :
    Reads .primary
      (ts ++ .symbol .openBracket :: (partTokens lower ++ .symbol .colon ::
        (partTokens upper ++ (stepTokens step ++ [.symbol .closeBracket]))))
      (.slice e (lower.map Phrase.tree) (upper.map Phrase.tree) (step.join.map Phrase.tree)) := by
  refine h.subscript fun room rest => ?_
  generalize hcount : _ + 1 = count
  simp only [List.length_append, List.length_cons] at hcount
  have hfrom : Leads (room < count) (sliceFrom (nested room) e (lower.map Phrase.tree))
      (.symbol .colon :: (partTokens upper ++ (stepTokens step ++ [.symbol .closeBracket]))) rest
      (pure (.slice e (lower.map Phrase.tree) (upper.map Phrase.tree)
        (step.join.map Phrase.tree))) :=
    leads_sliceFrom hdu hds hu hs (by omega)
  refine .peek? ?_
  cases lower with
  | none =>
    rw [if_pos (by simp [partTokens])]
    exact hfrom
  | some p =>
    rw [if_neg (by rw [List.append_assoc]; exact (hdl p rfl).head?_ne (by decide))]
    refine .andThen ((hl p rfl).within .expression (Nat.lt_succ_self 0) ?_)
      (.not_eat (by simp) (.peek? ?_))
    · simp only [partTokens, Option.map_some, Option.getD_some] at hcount
      omega
    · rw [if_neg (by simp)]
      exact hfrom

/-! ## Calls -/

/-- No keyword stands in front of a positional argument. -/
theorem any_isKeyword_eq_false {done : List (Argument Expr)} {e : Expr}
    (h : ∀ a ∈ done, a.mayPrecede (.positional e)) :
    done.any Argument.isKeyword = false ∧ done.any Argument.isDoubleStar = false := by
  simp only [List.any_eq_false]
  constructor
  all_goals
    intro a ha
    have := h a ha
    cases a <;> simp_all [Argument.mayPrecede, Argument.isKeyword, Argument.isDoubleStar]

/-- No spread dict stands in front of a spread argument. -/
theorem any_isDoubleStar_eq_false {done : List (Argument Expr)} {e : Expr}
    (h : ∀ a ∈ done, a.mayPrecede (.star e)) : done.any Argument.isDoubleStar = false := by
  simp only [List.any_eq_false]
  intro a ha
  have := h a ha
  cases a <;> simp_all [Argument.mayPrecede, Argument.isDoubleStar]

/-- One argument, after others that it may follow. -/
theorem leads_argument {count room : Nat} {a : Argument Phrase} {done : List (Argument Expr)}
    (hd : Derives False .expression a.value.tokens a.value.tree)
    (h : Reads .expression a.value.tokens a.value.tree) (hcount : a.value.tokens.length < count)
    (hdone : ∀ b ∈ done, b.mayPrecede (a.map Phrase.tree)) (hrest : continuation rest < 1)
    (hassign : rest.head? ≠ some (.symbol .assign)) :
    Leads (room < count) (argument (nested room) (argumentState done)) a.tokens rest
      (pure (argumentState (done ++ [a.map Phrase.tree]))) := by
  have hvalue : Leads (room < count) (nested room .expression) a.value.tokens rest
      (pure a.value.tree) := h.within .expression hrest hcount
  have hne : ∀ t : Token, t.opening = 0 → (a.value.tokens ++ rest).head? ≠ some t := fun t ht =>
    hd.head?_ne (by simp [ht, Level.opening])
  cases a with
  | doubleStar p =>
    refine .eat (.trans_nil (.bind hvalue) ?_)
    simpa [argumentState, Argument.map, Argument.isKeyword, Argument.isDoubleStar, Argument.value]
      using Leads.refl _ _
  | star p =>
    have hno := any_isDoubleStar_eq_false hdone
    refine .not_eat (by simp [Argument.tokens]) (.eat ?_)
    simp only [↓reduceIte, argumentState, hno, Bool.false_eq_true]
    refine .trans_nil (.bind hvalue) ?_
    simpa [argumentState, hno, Argument.map, Argument.isKeyword, Argument.isDoubleStar,
      Argument.value] using Leads.refl _ _
  | keyword name p =>
    refine .not_eat (by simp [Argument.tokens]) (.not_eat (by simp [Argument.tokens]) ?_)
    refine .peek? (.peekSecond? (.skip [_, _] (.trans_nil (.bind hvalue) ?_)))
    simpa [argumentState, Argument.map, Argument.isKeyword, Argument.isDoubleStar, Argument.value]
      using Leads.refl _ _
  | positional p =>
    obtain ⟨hkeyword, hdouble⟩ := any_isKeyword_eq_false hdone
    refine .not_eat (hne _ rfl) (.not_eat (hne _ rfl) (.peek? (.peekSecond? ?_)))
    split
    · next name hname hsecond =>
      obtain ⟨us, hus⟩ := List.head?_eq_some_iff.1 hname
      rw [hus] at hsecond
      obtain ⟨vs, rfl⟩ := List.head?_eq_some_iff.1 hsecond
      exact absurd ⟨name, vs, hus⟩
        (not_beginsKeyword_append hd.ne_nil hd.not_beginsKeyword hassign)
    · rw [if_neg (by simp [argumentState, hkeyword, hdouble])]
      refine .trans_nil (.bind hvalue) ?_
      simpa [argumentState, hkeyword, hdouble, Argument.map, Argument.isKeyword,
        Argument.isDoubleStar, Argument.value] using Leads.refl _ _

/-- No argument begins with a closing bracket. -/
theorem Argument.head?_tokens_ne {a : Argument Phrase}
    (hd : Derives False .expression a.value.tokens a.value.tree) :
    (a.tokens ++ us).head? ≠ some (.symbol .closeParen) := by
  cases a with
  | positional p => exact hd.head?_ne (by decide)
  | _ => simp [Argument.tokens]

theorem Argument.mayPrecede_map {ε δ : Type} (f : ε → δ) (a b : Argument ε) :
    (a.map f).mayPrecede (b.map f) ↔ a.mayPrecede b := by
  cases a <;> cases b <;> exact Iff.rfl

/-- Arguments are ordered by their kinds. -/
theorem argumentsOrdered_map {ε δ : Type} (f : ε → δ) (args : List (Argument ε)) :
    ArgumentsOrdered (args.map (Argument.map f)) ↔ ArgumentsOrdered args := by
  simp only [ArgumentsOrdered, List.pairwise_map, Argument.mayPrecede_map]

/-- The arguments of a call, read after those in `done`, and the closing bracket. -/
theorem leads_argumentSteps {count room : Nat} {args : List (Argument Phrase)}
    (hd : ∀ a ∈ args, Derives False .expression a.value.tokens a.value.tree)
    (h : ∀ a ∈ args, Reads .expression a.value.tokens a.value.tree)
    (hcount : ∀ a ∈ args, a.value.tokens.length < count) (done : List (Argument Expr))
    (ho : ArgumentsOrdered (done ++ args.map (Argument.map Phrase.tree)))
    (hs : Separated (args.map Argument.tokens) ts) :
    Leads (room < count) (iterate (argumentStep (nested room)) (argumentState done))
      (ts ++ [.symbol .closeParen]) rest
      (pure (argumentState (done ++ args.map (Argument.map Phrase.tree)))) := by
  induction args generalizing ts done with
  | nil =>
    cases hs
    refine .iterate_stop (.eat ?_)
    simpa using Leads.refl _ _
  | cons a args ih =>
    have hda := hd a (by simp)
    have hstep : ∀ us, continuation us < 1 → us.head? ≠ some (.symbol .assign) →
        Leads (room < count) (argument (nested room) (argumentState done)) a.tokens us
          (pure (argumentState (done ++ [a.map Phrase.tree]))) := by
      intro us hus hassign
      refine leads_argument hda (h a (by simp)) (hcount a (by simp)) (fun b hb => ?_) hus hassign
      exact (List.pairwise_append.1 ho).2.2 b hb _ (by simp)
    generalize hargs : (a :: args).map Argument.tokens = all at hs
    cases hs with
    | none => simp at hargs
    | last ts =>
      obtain ⟨rfl, rfl⟩ : a.tokens = ts ∧ args = [] := by simpa using hargs
      refine .iterate_stop (.not_eat ?_ (.andThen (hstep _ (Nat.lt_succ_self 0) (by simp)) ?_))
      · rw [List.append_assoc]
        exact Argument.head?_tokens_ne hda
      · exact .not_eat (by simp) (.expect (.refl _ _))
    | @comma ts items us hs =>
      obtain ⟨rfl, rfl⟩ := List.cons.inj hargs
      have hone : Leads (room < count) (argumentStep (nested room) (argumentState done))
          (a.tokens ++ [.symbol .comma]) (us ++ [.symbol .closeParen] ++ rest)
          (pure (argumentState (done ++ [a.map Phrase.tree]), true)) := by
        refine .not_eat ?_ (.andThen (hstep _ (Nat.lt_succ_self 0) (by simp)) ?_)
        · rw [List.append_assoc]
          exact Argument.head?_tokens_ne hda
        · exact .eat (.refl _ _)
      have hrest := ih (fun b hb => hd b (by simp [hb])) (fun b hb => h b (by simp [hb]))
        (fun b hb => hcount b (by simp [hb])) (done ++ [a.map Phrase.tree]) (by simpa using ho) hs
      simpa using Leads.trans (.iterate (by simp) hone) hrest

/-- A call with arguments in order. -/
theorem Reads.call {as : List Token} {args : List (Argument Phrase)} (h : Reads .primary ts e)
    (hds : ∀ a ∈ args, Derives False .expression a.value.tokens a.value.tree)
    (hs : ∀ a ∈ args, Reads .expression a.value.tokens a.value.tree) (ho : ArgumentsOrdered args)
    (hsep : Separated (args.map Argument.tokens) as) :
    Reads .primary (ts ++ .symbol .openParen :: (as ++ [.symbol .closeParen]))
      (.call e (args.map (Argument.map Phrase.tree))) := by
  refine h.trail (List.cons_ne_nil _ _) (fun rest => Nat.lt_succ_self 12) fun room rest => ?_
  have hcount : ∀ a ∈ args, a.value.tokens.length
      < ts.length + (Token.symbol .openParen :: (as ++ [.symbol .closeParen])).length := by
    intro a ha
    have := hsep.length_le _ (List.mem_map_of_mem ha)
    have := a.length_value_tokens_le
    simp only [List.length_cons, List.length_append]
    omega
  have ho' : ArgumentsOrdered ([] ++ args.map (Argument.map Phrase.tree)) := by
    simpa [argumentsOrdered_map] using ho
  refine .not_eat (by simp) (.eat (.bind ?_))
  rw [arguments_eq]
  refine .trans_nil (.bind (leads_argumentSteps hds hs hcount [] ho' hsep)) ?_
  simpa [argumentState] using Leads.refl _ _

end ExprLang
