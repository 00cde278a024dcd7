import ExprLang.Proofs.Printing.Texts

/-!
# Tokens of the parts of an expression

`Spelt e` : the text of `e` is cut into its own tokens whatever comes after an expression stands
behind it. What an expression is put together from besides operands, namely parts of a slice,
arguments, entries of a dict display and parameters, is cut like that too where its expressions
are.
-/

namespace ExprLang

/-- The tokens of the text of an expression. -/
def Expr.phrase (e : Expr) : Phrase :=
  ⟨lex e.text.toList, e⟩

/-- The text of an expression is cut by itself. -/
structure Spelt (e : Expr) : Prop where
  opens : Opens e.text.toList
  piece : Piece false e.text.toList e.phrase.tokens

/-! ## Slices -/

/-- The text of an optional part of a slice. -/
theorem Spelt.part {part : Option Expr} (h : ∀ e ∈ part, Spelt e) :
    Piece false (Expr.optionText "" part).toList (partTokens (part.map Expr.phrase)) := by
  cases part with
  | none => exact .nil
  | some e => simpa [Expr.optionText, partTokens] using (h e rfl).piece

theorem Spelt.opens_part {part : Option Expr} (h : ∀ e ∈ part, Spelt e) :
    Opens (Expr.optionText "" part).toList := by
  cases part with
  | none => exact .nil
  | some e => simpa [Expr.optionText] using (h e rfl).opens

/-- The text of the step of a slice, with the colon before it. -/
theorem Spelt.step {step : Option Expr} (h : ∀ e ∈ step, Spelt e) :
    Piece false (Expr.optionText ":" step).toList
      (stepTokens (step.map fun e => some e.phrase)) := by
  cases step with
  | none => exact .nil
  | some e =>
    rw [Expr.toList_stepText]
    exact (h e rfl).piece.colon (h e rfl).opens

/-- A step begins with its colon, if there is one. -/
theorem opens_stepText (step : Option Expr) : Opens (Expr.optionText ":" step).toList := by
  cases step with
  | none => exact .nil
  | some e =>
    rw [Expr.toList_stepText]
    exact .cons (by decide)

theorem stops_stepText {rest : List Char} (step : Option Expr) (h : Stops false rest) :
    Stops false ((Expr.optionText ":" step).toList ++ rest) := by
  cases step with
  | none => simpa [Expr.optionText] using h
  | some e =>
    rw [Expr.toList_stepText]
    exact .cons (by decide)

/-- What stands between the brackets of a slice. -/
theorem Spelt.slice {lower upper step : Option Expr} (hlower : ∀ e ∈ lower, Spelt e)
    (hupper : ∀ e ∈ upper, Spelt e) (hstep : ∀ e ∈ step, Spelt e) :
    Piece false ((Expr.optionText "" lower).toList ++ ':' ::
        ((Expr.optionText "" upper).toList ++ (Expr.optionText ":" step).toList))
      (partTokens (lower.map Expr.phrase) ++ .symbol .colon ::
        (partTokens (upper.map Expr.phrase) ++ stepTokens (step.map fun e => some e.phrase))) := by
  have hparts := (Spelt.part hupper).append (Spelt.step hstep) fun _ => stops_stepText step
  have hcolon := hparts.colon ((Spelt.opens_part hupper).append (opens_stepText step))
  exact (Spelt.part hlower).join (by decide) hcolon

/-! ## Items, arguments and entries -/

/-- Items are lexed one by one. -/
theorem Pieces.items {items : List Expr} (h : ∀ e ∈ items, Spelt e) :
    Pieces (items.map Expr.text) ((items.map Expr.phrase).map Phrase.tokens) := by
  rw [List.map_map]
  exact .map fun e he => (h e he).piece

/-- An argument is lexed with its stars or its keyword. -/
theorem Spelt.argument {a : Argument Expr} (h : Spelt a.value)
    (hname : ∀ name e, a = .keyword name e → IsName name) :
    Piece false a.text.toList (a.map Expr.phrase).tokens := by
  cases a with
  | positional e => exact h.piece
  | star e =>
    rw [Argument.text_star]
    exact h.piece.star h.opens
  | keyword name e =>
    rw [Argument.text_keyword]
    exact h.piece.assigned (hname name e rfl) h.opens
  | doubleStar e =>
    rw [Argument.text_doubleStar]
    exact h.piece.power h.opens

theorem Pieces.arguments {args : List (Argument Expr)} (h : ∀ a ∈ args, Spelt a.value)
    (hnames : ∀ name e, .keyword name e ∈ args → IsName name) :
    Pieces (args.map Argument.text)
      ((args.map (Argument.map Expr.phrase)).map Argument.tokens) := by
  rw [List.map_map]
  exact .map fun a ha => (h a ha).argument fun name e heq => hnames name e (heq ▸ ha)

/-- An entry is lexed with its colon. -/
theorem Spelt.entry {p : Expr × Expr} (hkey : Spelt p.1) (hvalue : Spelt p.2) :
    Piece false (entryText p).toList (entryTokens (p.1.phrase, p.2.phrase)) := by
  rw [toList_entryText]
  exact hkey.piece.join (by decide) (hvalue.piece.space.colon (.cons (by decide)))

theorem Pieces.entries {entries : List (Expr × Expr)} (hkeys : ∀ p ∈ entries, Spelt p.1)
    (hvalues : ∀ p ∈ entries, Spelt p.2) :
    Pieces (entries.map entryText)
      ((entries.map fun p => (p.1.phrase, p.2.phrase)).map entryTokens) := by
  rw [List.map_map]
  exact .map fun p hp => (hkeys p hp).entry (hvalues p hp)

/-! ## Parameters -/

/-- A parameter is lexed with its default. -/
theorem Spelt.param {p : Param Expr} (hname : IsName p.name)
    (h : ∀ e ∈ p.default, Spelt e) :
    Piece false p.text.toList (p.map Expr.phrase).tokens := by
  obtain ⟨name, default⟩ := p
  cases default with
  | none =>
    rw [Param.text_none]
    exact hname.piece
  | some e =>
    rw [Param.text_some]
    exact (h e rfl).piece.assigned hname (h e rfl).opens

/-- A star stands alone or in front of a name. -/
theorem Pieces.star {ps : Params Expr} (h : ∀ name ∈ ps.varargs, IsName name) :
    Pieces ps.starTexts (ps.map Expr.phrase).starTokens := by
  obtain ⟨positional, varargs, keywordOnly, kwargs⟩ := ps
  cases varargs with
  | some name =>
    have hstar : Piece false ('*' :: name.toList) [.symbol .star, .name name] :=
      (h name rfl).piece.star (h name rfl).word.opens
    exact .cons (by simpa using hstar) .nil
  | none =>
    have hbare : Piece false "*".toList [.symbol .star] := Piece.nil.star .nil
    cases keywordOnly with
    | nil => exact .nil
    | cons p ps => exact .cons hbare .nil

theorem Pieces.kwargs {kwargs : Option String} (h : ∀ name ∈ kwargs, IsName name) :
    Pieces (kwargs.map ("**" ++ ·)).toList
      (kwargs.map fun name => [.symbol .power, .name name]).toList := by
  cases kwargs with
  | none => exact .nil
  | some name =>
    have hpower : Piece false ('*' :: '*' :: name.toList) [.symbol .power, .name name] :=
      (h name rfl).piece.power (h name rfl).word.opens
    exact .cons (by simpa using hpower) .nil

theorem Pieces.named {ps : List (Param Expr)} (hnames : ∀ p ∈ ps, IsName p.name)
    (h : ∀ p ∈ ps, ∀ e ∈ p.default, Spelt e) :
    Pieces (ps.map Param.text) ((ps.map (Param.map Expr.phrase)).map Param.tokens) := by
  rw [List.map_map]
  exact .map fun p hp => Spelt.param (hnames p hp) (h p hp)

/-- All parameters, in the order in which they are printed. -/
theorem Pieces.params {ps : Params Expr} (hnames : ∀ name ∈ ps.declared, IsName name)
    (h : ∀ e ∈ ps.defaults, Spelt e) :
    Pieces ps.texts (ps.map Expr.phrase).tokens := by
  have hdefault : ∀ p ∈ ps.positional ++ ps.keywordOnly, ∀ e ∈ p.default, Spelt e :=
    fun p hp e he => h e (List.mem_filterMap.2 ⟨p, hp, he⟩)
  simp only [Params.declared, List.forall_mem_append, List.forall_mem_map] at hnames
  obtain ⟨⟨⟨hpositional, hvarargs⟩, hkeywordOnly⟩, hkwargs⟩ := hnames
  have hpieces : Pieces _ (ps.map Expr.phrase).starTokens := .star (by simpa using hvarargs)
  refine ((Pieces.append ?_ hpieces).append ?_).append (.kwargs (by simpa using hkwargs))
  · exact .named hpositional fun p hp => hdefault p (List.mem_append_left _ hp)
  · exact .named hkeywordOnly fun p hp => hdefault p (List.mem_append_right _ hp)

end ExprLang
