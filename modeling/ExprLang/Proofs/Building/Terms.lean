import ExprLang.Proofs.Building.Registry
import ExprLang.Proofs.Printing.Written

/-!
# Terms made by combinators

A `Term` says by which combinators fragments were made; its tree is what they mean. The text of a
well-formed term is that tree (`Term.written`): what a combinator is applied to stands between
brackets, and what stands on the right of an operator without them is tighter than any operator.
Nothing in such a text is set off by blanks, so the lemmas about texts come first.
-/

namespace ExprLang

open ExprLang.Parser

variable {dot dot' : Bool} {text text' : List Char} {ts us : List Token} {e l r : Expr}

/-! ## Texts without blanks -/

/-- A symbol between a text in brackets and another one. -/
theorem Piece.collapsed {s : Symbol} (hdot : s ≠ .dot) (h : Piece dot text ts)
    (h' : Piece dot' text' us) (hopens : Opens text') :
    Piece dot' ('(' :: (text ++ ')' :: (s.text.toList ++ text')))
      (.symbol .openParen :: (ts ++ [.symbol .closeParen]) ++ .symbol s :: us) := by
  intro rest hrest
  have hclose : Stops dot (')' :: (s.text.toList ++ text' ++ rest)) := .cons (by decide)
  have hinside := h _ hclose
  have hright := h'.symbol hdot hopens rest hrest
  simp only [List.append_assoc, List.cons_append] at hinside hright ⊢
  rw [lex_openParen, hinside, lex_closeParen, hright]
  simp

/-- An operator behind a text in brackets. -/
theorem Written.collapsed (op : BinaryOp) (hl : Written dot .expression text l)
    (hr : Written dot' .signed text' r) :
    Written dot' .comparison ('(' :: (text ++ ')' :: (op.text.toList ++ text')))
      (.binary op l r) := by
  obtain ⟨htext, hdot⟩ := op.symbol_text
  have hpiece := hl.piece.collapsed hdot hr.piece hr.opens
  rw [htext] at hpiece
  have hleft : Derives False .primary _ l := .ofAtom (.brackets hl.derives)
  exact .of (.cons (by decide)) hpiece (.ofBinary (hleft.operation op hr.derives))

/-- A link that is a single symbol, behind a text in brackets. -/
theorem Written.compared {link : Comparison} {s : Symbol} (hs : link.tokens = [.symbol s])
    (hl : Written dot .expression text l) (hr : Written dot' .signed text' r) :
    Written dot' .comparison ('(' :: (text ++ ')' :: (link.text.toList ++ text')))
      (.compare l [(link, r)]) := by
  have hsymbol : s.text = link.text ∧ s ≠ .dot := by
    cases link <;> simp [Comparison.tokens] at hs <;> subst hs <;> exact ⟨rfl, by decide⟩
  have hpiece := hl.piece.collapsed hsymbol.2 hr.piece hr.opens
  rw [hsymbol.1] at hpiece
  have hleft : Derives False .primary _ l := .ofAtom (.brackets hl.derives)
  have hlink : ∀ p ∈ [(link, Phrase.mk (lex text') r)],
      Derives False (.binary 0) p.2.tokens p.2.tree := by
    simpa using hr.derives.binary_of_signed (Nat.zero_le _)
  have hcompare := Derives.compare (hleft.signed_of_primary.binary_of_signed (Nat.zero_le _))
    (List.cons_ne_nil _ _) hlink
  have htokens : linkTokens [(link, Phrase.mk (lex text') r)] = .symbol s :: lex text' := by
    simp [linkTokens, hs]
  rw [htokens] at hcompare
  exact .of (.cons (by decide)) hpiece hcompare

/-- A function called with one argument. -/
theorem Written.applied {name : String} (hname : IsName name)
    (h : Written false .expression text e) :
    Written dot .primary (name.toList ++ '(' :: (text ++ [')']))
      (.call (.var name) [.positional e]) := by
  have hcallee : Written false .primary name.toList (.var name) := .name hname
  have harguments : Piece dot ('(' :: (text ++ [')'])) _ := h.piece.parens
  have hpiece := hcallee.piece.join (by decide) harguments
  refine .of (hcallee.opens.append (.cons (by decide))) hpiece ?_
  have harg : ∀ a ∈ [Argument.positional (Phrase.mk (lex text) e)],
      Derives False .expression a.value.tokens a.value.tree := by
    simpa [Argument.value] using h.derives
  exact .call hcallee.derives harg (List.pairwise_singleton _ _) (.last _)

/-- A function called with two arguments, with a comma between them. -/
theorem Written.appliedWith {name : String} (hname : IsName name)
    (h : Written false .expression text e) (h' : Written false .expression text' r) :
    Written dot .primary (name.toList ++ '(' :: (text ++ ',' :: (text' ++ [')'])))
      (.call (.var name) [.positional e, .positional r]) := by
  have hcallee : Written false .primary name.toList (.var name) := .name hname
  have harguments : Piece dot ('(' :: (text ++ ',' :: text' ++ [')'])) _ :=
    (h.piece.join (by decide) h'.piece.comma).parens
  have hpiece := hcallee.piece.join (by decide) harguments
  have hargs' : ∀ a ∈ [Argument.positional (Phrase.mk (lex text) e), .positional ⟨lex text', r⟩],
      Derives False .expression a.value.tokens a.value.tree := by
    simpa [Argument.value] using ⟨h.derives, h'.derives⟩
  have hcall := Derives.call hcallee.derives hargs'
    (by simp [ArgumentsOrdered, Argument.mayPrecede]) (.comma _ (.last _))
  refine .of (hcallee.opens.append (.cons (by decide))) ?_ hcall
  simpa [Argument.tokens, Symbol.text] using hpiece

/-! ## Terms -/

/-- An expression made by combinators. A literal beside a term is a term as well. -/
inductive Term where
  | placeholder (name : String)
  | bool (b : Bool)
  | int (n : Int)
  | unary (op : UnaryOp) (term : Term)
  | apply (b : Builtin) (term : Term)
  | applyWith (b : Builtin) (term second : Term)
  | attr (term : Term) (name : String)
  | item (term key : Term)
  | binary (op : BinaryOp) (left right : Term)
  | compare (link : Comparison) (left right : Term)

namespace Term

/-- What a combinator is given for a term with these fragments: a literal is given as itself. -/
def operand (fs : Fragments) : Term → Operand
  | .bool b => .bool b
  | .int n => .int n
  | _ => .draft fs

/-- The fragments that the combinators put together. -/
def fragments : Term → Fragments
  | .placeholder name => [name]
  | .bool b => (Operand.bool b).fragments
  | .int n => (Operand.int n).fragments
  | .unary op t => t.fragments.unary op
  | .apply b t => t.fragments.passTo b
  | .applyWith b t s => t.fragments.passWith b (s.operand s.fragments).fragments
  | .attr t name => t.fragments.attr name
  | .item t key => t.fragments.getItem (key.operand key.fragments)
  | .binary op l r => l.fragments.binary op (r.operand r.fragments)
  | .compare link l r => l.fragments.compare link (r.operand r.fragments)

/-- The tree of an integer literal. -/
def magnitude (n : Int) : Expr :=
  .literal (.int (Int64.ofNat n.natAbs))

/-- The expression that a term stands for. -/
def tree : Term → Expr
  | .placeholder name => .var name
  | .bool b => .literal (.bool b)
  | .int n => if n < 0 then .unary .neg (magnitude n) else magnitude n
  | .unary op t => .unary op t.tree
  | .apply b t => .call (.var b.name) [.positional t.tree]
  | .applyWith b t s => .call (.var b.name) [.positional t.tree, .positional s.tree]
  | .attr t name => .attribute t.tree name
  | .item t key => .item t.tree key.tree
  | .binary op l r => .binary op l.tree r.tree
  | .compare link l r => .compare l.tree [(link, r.tree)]

/-- The placeholders in a term, from the left to the right. -/
def names : Term → List String
  | .placeholder name => [name]
  | .bool _ | .int _ => []
  | .unary _ t | .apply _ t | .attr t _ => t.names
  | .applyWith _ l r | .item l r | .binary _ l r | .compare _ l r => l.names ++ r.names

/-- How tight the text of a term is. Only an operator between two operands is loose. -/
def level : Term → Level
  | .binary .. | .compare .. => .comparison
  | _ => .signed

/-- Whether the text of a term means what it should: its placeholders are registered, its
attributes names, its integers in range, its links symbols, and whatever stands on the right of an
operator is tight. -/
def WellFormed (registered : String → Bool) : Term → Prop
  | .placeholder name => registered name = true
  | .bool _ => True
  | .int n => n.natAbs ≤ maxInteger
  | .unary _ t | .apply _ t => t.WellFormed registered
  | .applyWith _ l r | .item l r => l.WellFormed registered ∧ r.WellFormed registered
  | .attr t name =>
    t.WellFormed registered ∧ isIdentifier name = true ∧ isReservedWord name = false
  | .binary _ l r => l.WellFormed registered ∧ r.WellFormed registered ∧ r.level = .signed
  | .compare link l r =>
    l.WellFormed registered ∧ r.WellFormed registered ∧ r.level = .signed ∧
      ∃ s, link.tokens = [.symbol s]

@[simp] theorem fragments_operand (t : Term) : (t.operand t.fragments).fragments = t.fragments := by
  cases t <;> rfl

/-- A term is a signed operand or a comparison. -/
theorem level_eq (t : Term) : t.level = .signed ∨ t.level = .comparison := by
  cases t <;> simp [level]

end Term

/-! ## Their texts -/

/-- The characters of the text that fragments make up. -/
def Fragments.chars (fs : Fragments) : List Char :=
  fs.text.toList

namespace Fragments

@[simp] theorem chars_nil : chars [] = [] := by
  simp [chars, text]

@[simp] theorem chars_cons (f : String) (fs : Fragments) :
    chars (f :: fs) = f.toList ++ chars fs := by
  simp [chars, text]

@[simp] theorem chars_append (fs gs : Fragments) : chars (fs ++ gs) = chars fs ++ chars gs := by
  induction fs with
  | nil => simp
  | cons f fs ih => simp [ih]

end Fragments

theorem Builtin.isName (b : Builtin) : IsName b.name := by
  have table : ∀ b ∈ Builtin.all, isIdentifier b.name = true ∧ isReservedWord b.name = false := by
    decide +kernel
  exact isName_iff.2 (table b (by cases b <;> decide))

theorem Written.literalBool (b : Bool) :
    Written dot .primary (Operand.bool b).source.toList (.literal (.bool b)) := by
  cases b with
  | true => exact .keyword (k := .trueWord) rfl
  | false => exact .keyword (k := .falseWord) rfl

/-- An integer is written as its text, with its sign if it is negative. -/
theorem Written.literalInt {n : Int} (hn : n.natAbs ≤ maxInteger) :
    Written false .signed (intText n).toList (Term.int n).tree := by
  have hmagnitude : Written false .signed (Nat.repr n.natAbs).toList (Term.magnitude n) :=
    (Written.int hn).signed
  unfold intText Term.tree
  split
  · rw [String.toList_append]
    exact hmagnitude.unary .neg
  · exact hmagnitude

/-- A term whose text is written at its level is a whole expression. -/
theorem Term.whole {t : Term} (h : Written false t.level t.fragments.chars t.tree) :
    Written false .expression t.fragments.chars t.tree := by
  refine h.loosen fun hd => ?_
  rcases t.level_eq with hlevel | hlevel <;> rw [hlevel] at hd
  · exact .expression_of_negated (.ofComparison hd.comparison_of_signed)
  · exact .expression_of_negated (.ofComparison hd)

/-- The text of a term is the expression that it stands for, at its level. -/
theorem Term.written {registered : String → Bool} {t : Term}
    (hname : ∀ name, registered name = true → IsName name) (h : t.WellFormed registered) :
    Written false t.level t.fragments.chars t.tree := by
  induction t with
  | placeholder name =>
    have hwritten : Written false .signed name.toList (.var name) :=
      (Written.name (hname name h)).signed
    simpa [fragments, level, tree] using hwritten
  | bool b =>
    have hwritten : Written false .signed (Operand.bool b).source.toList (.literal (.bool b)) :=
      (Written.literalBool b).signed
    simpa [fragments, level, tree, Operand.fragments] using hwritten
  | int n =>
    have hwritten := Written.literalInt h
    simpa [fragments, level, Operand.fragments, Operand.source] using hwritten
  | unary op t ih =>
    have hbrackets : Written false .signed _ t.tree := (Term.whole (ih h)).brackets.signed
    simpa [fragments, level, tree, Fragments.unary, Fragments.wrap] using hbrackets.unary op
  | apply b t ih =>
    have hcall : Written false .signed _ _ := ((Term.whole (ih h)).applied b.isName).signed
    simpa [fragments, level, tree, Fragments.passTo, Fragments.wrap] using hcall
  | applyWith b t s iht ihs =>
    have hcall : Written false .signed _ _ :=
      ((Term.whole (iht h.1)).appliedWith b.isName (Term.whole (ihs h.2))).signed
    simpa [fragments, level, tree, Fragments.passWith] using hcall
  | attr t name ih =>
    have hattribute : Written false .signed _ _ :=
      ((Term.whole (ih h.1)).brackets.attribute (isName_iff.2 h.2)).signed
    simpa [fragments, level, tree, Fragments.attr, Fragments.wrap] using hattribute
  | item t key iht ihk =>
    have hbrackets : Written false .primary _ t.tree := (Term.whole (iht h.1)).brackets
    have hitem : Written false .signed _ _ := (hbrackets.item (Term.whole (ihk h.2))).signed
    simpa [fragments, level, tree, Fragments.getItem] using hitem
  | binary op l r ihl ihr =>
    obtain ⟨hl, hr, hlevel⟩ := h
    have hright := ihr hr
    rw [hlevel] at hright
    have hbinary := (Term.whole (ihl hl)).collapsed op hright
    simpa [fragments, level, tree, Fragments.binary, Fragments.collapse] using hbinary
  | compare link l r ihl ihr =>
    obtain ⟨hl, hr, hlevel, s, hs⟩ := h
    have hright := ihr hr
    rw [hlevel] at hright
    have hcompare := (Term.whole (ihl hl)).compared hs hright
    simpa [fragments, level, tree, Fragments.compare, Fragments.collapse] using hcompare

end ExprLang
