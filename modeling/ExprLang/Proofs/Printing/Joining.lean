import ExprLang.Proofs.Printing.NumberTexts
import ExprLang.Proofs.Printing.Parts

/-!
# Where printed texts run together

The text of an expression is written from the texts of its operands and other parts, with symbols
and words between them. `joins_of_parse` : cut into tokens as a whole it gives the tokens of those
parts in sequence (`Expr.pieceTokens`), except where the dot of an attribute stands right behind a
decimal integer and goes to the number instead (`Expr.Fuses`). An attribute of an integer literal
is printed like that, as such a literal gets no brackets (`not_joins_integer`).

What an operand is followed by is up to its last token, so the induction (`Stands`) carries that an
operand which ends in an integer is plain text, an integer literal with names behind dots
(`Expr.Bare`). All others end in a token that a dot ends too.
-/

namespace ExprLang

open ExprLang.Parser

/-! ## Tokens of the parts -/

/-- The tokens of an expression as an operand. -/
def Expr.operandPhrase (e : Expr) : Phrase :=
  ⟨lex e.operandText, e⟩

/-- The tokens of the parts that the text of an expression is written from, in sequence: those of
its operands and of its other parts, each by itself, with the symbols and words between them. -/
def Expr.pieceTokens : Expr → List Token
  | .literal value => lex value.text.toList
  | .var name => [.name name]
  | .tuple [e] =>
    .symbol .openParen :: ((e.phrase.tokens ++ [.symbol .comma]) ++ [.symbol .closeParen])
  | .tuple items =>
    .symbol .openParen ::
      (commaTokens ((items.map Expr.phrase).map Phrase.tokens) ++ [.symbol .closeParen])
  | .list items =>
    .symbol .openBracket ::
      (commaTokens ((items.map Expr.phrase).map Phrase.tokens) ++ [.symbol .closeBracket])
  | .dict entries =>
    .symbol .openBrace ::
      (commaTokens ((entries.map fun p => (p.1.phrase, p.2.phrase)).map entryTokens)
        ++ [.symbol .closeBrace])
  | .unary op operand => .symbol op.symbol :: operand.operandPhrase.tokens
  | .binary op left right =>
    left.operandPhrase.tokens ++ .symbol op.symbol :: right.operandPhrase.tokens
  | .bool op left right =>
    left.operandPhrase.tokens ++ .keyword op.keyword :: right.operandPhrase.tokens
  | .not operand => .keyword .notWord :: operand.operandPhrase.tokens
  | .compare first links =>
    first.operandPhrase.tokens ++ linkTokens (links.map fun l => (l.1, l.2.operandPhrase))
  | .conditional test yes no =>
    yes.operandPhrase.tokens ++ .keyword .ifWord ::
      (test.operandPhrase.tokens ++ .keyword .elseWord :: no.operandPhrase.tokens)
  | .attribute target name => target.operandPhrase.tokens ++ [.symbol .dot, .name name]
  | .item target index =>
    target.operandPhrase.tokens ++ .symbol .openBracket ::
      (index.phrase.tokens ++ [.symbol .closeBracket])
  | .slice target lower upper step =>
    target.operandPhrase.tokens ++ .symbol .openBracket ::
      ((partTokens (lower.map Expr.phrase) ++ .symbol .colon ::
        (partTokens (upper.map Expr.phrase) ++ stepTokens (step.map fun e => some e.phrase)))
        ++ [.symbol .closeBracket])
  | .call callee args =>
    callee.operandPhrase.tokens ++ .symbol .openParen ::
      (commaTokens ((args.map (Argument.map Expr.phrase)).map Argument.tokens)
        ++ [.symbol .closeParen])
  | .lambda params body =>
    .keyword .lambdaWord ::
      (commaTokens (params.map Expr.phrase).tokens ++ .symbol .colon :: body.phrase.tokens)

/-- Whether an expression is an attribute whose dot stands behind a decimal integer. -/
def Expr.Fuses : Expr → Prop
  | .attribute target _ => EndsInInteger target.operandText
  | _ => False

/-- Only an attribute fuses, by its target. -/
theorem Expr.fuses_iff {e : Expr} : e.Fuses ↔ ∃ target name, e = .attribute target name ∧
    EndsInInteger target.operandText := by
  cases e <;> simp [Fuses]

/-- Integer literals, their attributes, the attributes of those and so on. -/
inductive Expr.Bare : Expr → Prop
  | int (n : Int64) : Bare (.literal (.int n))
  | dotted {target : Expr} (name : String) : Bare target → Bare (.attribute target name)

/-- The text of an expression is cut by itself, as an operand too, and it gives the tokens of its
parts unless a dot goes to the number before it. -/
structure Stands (e : Expr) : Prop where
  spelt : Spelt e
  opens : Opens e.operandText
  operand : ∀ dot, (dot = true → ¬EndsInInteger e.operandText) →
    Piece dot e.operandText e.operandPhrase.tokens
  ends : EndsInInteger e.operandText → e.Bare ∧ ∀ c ∈ e.operandText, isPlain c = true
  pieces : lex e.text.toList = e.pieceTokens ↔ ¬e.Fuses

/-- Brackets end with the closing one. -/
theorem getLast?_enclosed (first last : Token) (ts : List Token) :
    (first :: (ts ++ [last])).getLast? = some last := by
  simp [List.getLast?_cons]

/-- An operand stands, in brackets or without. -/
theorem Stands.operand_false {e : Expr} (h : Stands e) :
    Piece false e.operandText e.operandPhrase.tokens :=
  h.operand false (by simp)

/-- A text that is cut into tokens of which the last is no integer. -/
theorem not_endsInInteger {dot : Bool} {text : List Char} {ts : List Token} {t : Token}
    (h : Piece dot text ts) (hlast : ts.getLast? = some t) (ht : ∀ digits, t ≠ .int digits) :
    ¬EndsInInteger text := by
  rintro ⟨digits, hdigits, -⟩
  rw [h.lex_eq, hlast] at hdigits
  exact ht digits (Option.some.inj hdigits)

/-- As an operand it stands in brackets. -/
theorem Stands.of_compound {e : Expr} {text : List Char} (hcompound : e.isCompound = true)
    (hfuses : ¬e.Fuses) (htext : e.text.toList = text) (hopens : Opens text)
    (hpiece : Piece false text e.pieceTokens) : Stands e := by
  subst htext
  have hlex := hpiece.lex_eq
  have hparens : ∀ dot, Piece dot e.operandText
      (.symbol .openParen :: (e.pieceTokens ++ [.symbol .closeParen])) := by
    rw [Expr.operandText_of_compound hcompound]
    exact fun dot => hpiece.parens
  refine ⟨⟨hopens, ?_⟩, ?_, fun dot _ => ?_, fun hends => ?_, by simp [hlex, hfuses]⟩
  · rwa [Expr.phrase, hlex]
  · rw [Expr.operandText_of_compound hcompound]
    exact .cons (by decide)
  · rw [Expr.operandPhrase, (hparens dot).lex_eq]
    exact hparens dot
  · exact absurd hends (not_endsInInteger (hparens false) (getLast?_enclosed _ _ _) (by simp))

/-- Its last token is no integer, so that anything may come after it. -/
theorem Stands.of_closed {e : Expr} {text : List Char} {t : Token}
    (hcompound : e.isCompound = false) (hfuses : ¬e.Fuses) (htext : e.text.toList = text)
    (hopens : Opens text) (hpiece : Piece true text e.pieceTokens)
    (hlast : e.pieceTokens.getLast? = some t) (ht : ∀ digits, t ≠ .int digits) : Stands e := by
  subst htext
  have hlex := hpiece.lex_eq
  have hoperand := Expr.operandText_of_not_compound hcompound
  refine ⟨⟨hopens, ?_⟩, hoperand ▸ hopens, fun dot _ => ?_, fun hends => ?_, by simp [hlex, hfuses]⟩
  · rw [Expr.phrase, hlex]
    exact hpiece.mono (by simp)
  · rw [Expr.operandPhrase, hoperand, hlex]
    exact hpiece.mono fun _ => rfl
  · rw [hoperand] at hends
    exact absurd hends (not_endsInInteger hpiece hlast ht)

/-! ## Literals and names -/

/-- A number with a sign, a point or an exponent stands in brackets as an operand. A decimal integer
does not. -/
theorem Stands.number {value : Literal} (hnumber : value.isNumber = true) :
    Stands (.literal value) := by
  have hwrites : WritesNumber (Expr.literal value).text.toList := by
    rw [Expr.text]
    exact .literal hnumber
  have hplain : ∀ c ∈ (Expr.literal value).text.toList, isPlain c = true := fun c hc =>
    isPlain_of_writesNumber (hwrites c hc)
  have hopens : Opens (Expr.literal value).text.toList := fun c hc =>
    opensText_of_writesNumber (hwrites c (List.mem_of_mem_head? hc))
  have hpiece : Piece false (Expr.literal value).text.toList (Expr.literal value).phrase.tokens :=
    .plain hplain (by simp)
  cases hcompound : (Expr.literal value).isCompound with
  | true =>
    refine .of_compound hcompound id rfl hopens ?_
    rwa [Expr.pieceTokens, ← Expr.text]
  | false =>
    have htext := Expr.operandText_of_not_compound hcompound
    refine ⟨⟨hopens, hpiece⟩, htext ▸ hopens, fun dot hdot => ?_, fun _ => ?_, ?_⟩
    · rw [Expr.operandPhrase, htext]
      exact .plain hplain (htext ▸ hdot)
    · refine ⟨?_, htext ▸ hplain⟩
      cases value with
      | int n => exact .int n
      | _ => simp_all [Expr.isCompound, Literal.isCompound, Literal.isNumber]
    · rw [Expr.pieceTokens, ← Expr.text]
      exact iff_of_true rfl id

/-- A literal that is a keyword stands. -/
theorem Stands.keyword {k : Keyword} {value : Literal} (hcompound : value.isCompound = false)
    (htext : value.text = k.text) : Stands (.literal value) := by
  have htokens : (Expr.literal value).pieceTokens = [.keyword k] := by
    rw [Expr.pieceTokens, htext]
    exact (@Keyword.piece false k).lex_eq
  refine .of_closed hcompound id (by rw [Expr.text, htext]) k.text_isWord.opens ?_
    (by rw [htokens]; rfl) (by simp)
  rw [htokens]
  exact k.piece

/-- Literals stand, whatever their kind. -/
theorem Stands.literal (value : Literal) : Stands (.literal value) := by
  match value with
  | .none => exact .keyword (k := .noneWord) rfl rfl
  | .bool true => exact .keyword (k := .trueWord) rfl rfl
  | .bool false => exact .keyword (k := .falseWord) rfl rfl
  | .int n => exact .number rfl
  | .float x => exact .number rfl
  | .imaginary x => exact .number rfl
  | .str s =>
    have htokens : (Expr.literal (.str s)).pieceTokens = _ := (@Piece.quoted false s).lex_eq
    refine .of_closed rfl id (by rw [Expr.text, Literal.text]) (opens_quoted s) ?_
      (by rw [htokens]; rfl) (by simp)
    rw [htokens]
    exact .quoted s

/-- A variable that is named by a name stands. -/
theorem Stands.var {name : String} (hname : IsName name) : Stands (.var name) :=
  .of_closed rfl id (by rw [Expr.text]) hname.word.opens hname.piece rfl (by simp)

/-! ## Operators -/

/-- A sign is not made longer by what opens a text. -/
theorem Stands.unary {op : UnaryOp} {e : Expr} (h : Stands e) : Stands (.unary op e) :=
  .of_compound rfl id (Expr.text_unary op e) (.unary op _) (h.operand_false.unary op h.opens)

theorem Stands.binary {op : BinaryOp} {l r : Expr} (hl : Stands l) (hr : Stands r) :
    Stands (.binary op l r) :=
  .of_compound rfl id (Expr.text_binary op l r) (hl.opens.append (.cons (by decide)))
    (hl.operand_false.binary op hr.operand_false)

theorem Stands.bool {op : BoolOp} {l r : Expr} (hl : Stands l) (hr : Stands r) :
    Stands (.bool op l r) :=
  .of_compound rfl id (Expr.text_bool op l r) (hl.opens.append (.cons (by decide)))
    (hl.operand_false.bool op hr.operand_false)

theorem Stands.not {e : Expr} (h : Stands e) : Stands (.not e) :=
  .of_compound rfl id (Expr.text_not e) (.cons (by decide)) h.operand_false.not

theorem Stands.conditional {test yes no : Expr} (htest : Stands test) (hyes : Stands yes)
    (hno : Stands no) : Stands (.conditional test yes no) := by
  refine .of_compound rfl id (Expr.text_conditional test yes no) ?_
    (hyes.operand_false.conditional htest.operand_false hno.operand_false)
  simp only [List.append_assoc]
  exact hyes.opens.append (.cons (by decide))

/-- Every link of a chain has its spaces. -/
theorem Stands.compare {first : Expr} {links : List (Comparison × Expr)} (h : Stands first)
    (hlinks : ∀ l ∈ links, Stands l.2) : Stands (.compare first links) := by
  have hoperands : ∀ l ∈ links.map fun l => (l.1, l.2.operandText, l.2),
      Piece false l.2.1 (lex l.2.1) := by
    simp only [List.forall_mem_map]
    exact fun l hl => (hlinks l hl).operand_false
  have hpiece := h.operand_false.compare hoperands
  have hopens := h.opens.append (.links (links.map fun l => (l.1, l.2.operandText, l.2)))
  rw [List.flatMap_map] at hpiece hopens
  rw [List.map_map] at hpiece
  exact .of_compound rfl id (Expr.text_compare first links) hopens hpiece

/-! ## Trailers -/

/-- Behind a decimal integer the dot goes to the number, and behind anything else it stands by
itself. -/
theorem Stands.attribute {target : Expr} {name : String} (h : Stands target)
    (hname : IsName name) : Stands (.attribute target name) := by
  have htext := Expr.text_attribute target name
  have hopens : Opens (Expr.attribute target name).text.toList := by
    rw [htext]
    exact h.opens.append (.cons (by decide))
  by_cases hends : EndsInInteger target.operandText
  · obtain ⟨hbare, htarget⟩ := h.ends hends
    have hoperand : (Expr.attribute target name).operandText = _ :=
      Expr.operandText_of_not_compound rfl
    have hplain : ∀ c ∈ (Expr.attribute target name).text.toList, isPlain c = true := by
      rw [htext]
      exact List.forall_mem_append.2 ⟨htarget, List.forall_mem_cons.2 ⟨by decide, fun c hc =>
        isPlain_of_isNameContinue (hname.word.continues c hc)⟩⟩
    refine ⟨⟨hopens, .plain hplain (by simp)⟩, hoperand ▸ hopens,
      fun dot hdot => .plain (hoperand ▸ hplain) hdot,
      fun _ => ⟨hbare.dotted name, hoperand ▸ hplain⟩, ?_⟩
    rw [htext]
    refine iff_of_false (fun hlex => ?_) (not_not.2 hends)
    refine not_prefix_lex_point htarget hends name.toList ?_
    rw [hlex]
    exact List.prefix_append _ _
  · exact .of_closed rfl hends htext (htext ▸ hopens)
      ((h.operand true fun _ => hends).attribute hname) (by simp [Expr.pieceTokens]; rfl) (by simp)

/-- A trailer in brackets. -/
theorem Stands.trailer {e target : Expr} {first last : Symbol} {c : Char} {text : List Char}
    {ts : List Token} (hcompound : e.isCompound = false) (hfuses : ¬e.Fuses) (hc : c ∈ separators)
    (h : Stands target) (hinside : Piece true (c :: text) (.symbol first :: (ts ++ [.symbol last])))
    (htext : e.text.toList = target.operandText ++ c :: text)
    (htokens : e.pieceTokens
      = target.operandPhrase.tokens ++ .symbol first :: (ts ++ [.symbol last])) : Stands e := by
  have hopens : opensText c = true := (@Stops.cons false [] c hc).opensText c rfl
  refine .of_closed (t := .symbol last) hcompound hfuses htext (h.opens.append (.cons hopens)) ?_ ?_
    (by simp)
  · rw [htokens]
    exact h.operand_false.join hc hinside
  · rw [htokens, List.getLast?_append, getLast?_enclosed]
    rfl

/-- An index stands between its brackets. -/
theorem Stands.item {target index : Expr} (h : Stands target) (hindex : Stands index) :
    Stands (.item target index) :=
  .trailer rfl id (by decide) h hindex.spelt.piece.squares (Expr.text_item _ _) rfl

theorem Stands.slice {target : Expr} {lower upper step : Option Expr} (h : Stands target)
    (hlower : ∀ e ∈ lower, Stands e) (hupper : ∀ e ∈ upper, Stands e)
    (hstep : ∀ e ∈ step, Stands e) : Stands (.slice target lower upper step) := by
  have hparts := Spelt.slice (fun e he => (hlower e he).spelt) (fun e he => (hupper e he).spelt)
    fun e he => (hstep e he).spelt
  exact .trailer rfl id (by decide) h hparts.squares (Expr.text_slice _ _ _ _) rfl

/-- Arguments stand between brackets and commas. -/
theorem Stands.call {callee : Expr} {args : List (Argument Expr)} (h : Stands callee)
    (hargs : ∀ a ∈ args, Stands a.value)
    (hnames : ∀ name e, .keyword name e ∈ args → IsName name) : Stands (.call callee args) := by
  have harguments := Pieces.arguments (fun a ha => (hargs a ha).spelt) hnames
  exact .trailer rfl id (by decide) h (harguments.commas (.inr rfl)).parens (Expr.text_call _ _) rfl

/-! ## Displays -/

/-- A display in brackets. -/
theorem Stands.display {e : Expr} {first last : Symbol} {c : Char} {text : List Char}
    {ts : List Token} (hcompound : e.isCompound = false) (hfuses : ¬e.Fuses)
    (hc : opensText c = true)
    (hinside : Piece true (c :: text) (.symbol first :: (ts ++ [.symbol last])))
    (htext : e.text.toList = c :: text)
    (htokens : e.pieceTokens = .symbol first :: (ts ++ [.symbol last])) : Stands e := by
  refine .of_closed (t := .symbol last) hcompound hfuses htext (.cons hc) ?_ ?_ (by simp)
  · rwa [htokens]
  · rw [htokens, getLast?_enclosed]

theorem Stands.items {items : List Expr} (h : ∀ e ∈ items, Stands e) :
    Piece false (listed (items.map Expr.text)).toList
      (commaTokens ((items.map Expr.phrase).map Phrase.tokens)) :=
  (Pieces.items fun e he => (h e he).spelt).commas (.inr rfl)

theorem Stands.list {items : List Expr} (h : ∀ e ∈ items, Stands e) : Stands (.list items) :=
  .display rfl id (by decide) (Stands.items h).squares (Expr.text_list _) rfl

theorem Stands.tuple {items : List Expr} (h : ∀ e ∈ items, Stands e) : Stands (.tuple items) := by
  match items with
  | [] => exact .display rfl id (by decide) (Piece.parens (@Piece.nil false)) rfl rfl
  | [e] =>
    have hcomma := (h e (by simp)).spelt.piece.join (by decide) (@Piece.nil false).comma
    exact .display rfl id (by decide) hcomma.parens (Expr.text_tuple_singleton e) rfl
  | first :: second :: more =>
    exact .display rfl id (by decide) (Stands.items h).parens
      (Expr.text_tuple_cons_cons first second more) rfl

theorem Stands.dict {entries : List (Expr × Expr)} (hkeys : ∀ p ∈ entries, Stands p.1)
    (hvalues : ∀ p ∈ entries, Stands p.2) : Stands (.dict entries) := by
  have hentries := Pieces.entries (fun p hp => (hkeys p hp).spelt) fun p hp => (hvalues p hp).spelt
  exact .display rfl id (by decide) (hentries.commas (.inr rfl)).braces (Expr.text_dict _) rfl

/-! ## Functions -/

/-- Parameters and a body stand, if the parameters are named by names. -/
theorem Stands.lambda {ps : Params Expr} {body : Expr} (hnames : ∀ name ∈ ps.declared, IsName name)
    (hdefaults : ∀ e ∈ ps.defaults, Stands e) (hbody : Stands body) :
    Stands (.lambda ps body) := by
  have hparams := Pieces.params hnames fun e he => (hdefaults e he).spelt
  exact .of_compound rfl id (congrArg String.toList (Expr.text_lambda ps body))
    (opens_lambdaText _ _) (Piece.lambdaText (hparams.commas (.inr rfl)) hbody.spelt.piece)

/-! ## All expressions -/

/-- Every expression stands whose names are names, up to where it fuses. -/
theorem Expr.stands {e : Expr} (hproper : e.All Expr.IsProper) : Stands e := by
  induction e using Expr.induct_children with
  | h e ih =>
    obtain ⟨hnode, hparts⟩ := Expr.all_iff.1 hproper
    have hstands : ∀ c ∈ e.children, Stands c := fun c hc => ih c hc (hparts c hc)
    match e with
    | .literal value => exact .literal value
    | .var name => exact .var hnode
    | .tuple items => exact .tuple hstands
    | .list items => exact .list hstands
    | .dict entries =>
      simp only [Expr.children, List.forall_mem_append, List.forall_mem_map] at hstands
      exact .dict hstands.1 hstands.2
    | .unary op a =>
      simp only [Expr.children, List.forall_mem_singleton] at hstands
      exact .unary hstands
    | .not a =>
      simp only [Expr.children, List.forall_mem_singleton] at hstands
      exact .not hstands
    | .binary op l r =>
      simp only [Expr.children, List.forall_mem_cons] at hstands
      exact .binary hstands.1 hstands.2.1
    | .bool op l r =>
      simp only [Expr.children, List.forall_mem_cons] at hstands
      exact .bool hstands.1 hstands.2.1
    | .compare first links =>
      simp only [Expr.children, List.forall_mem_cons, List.forall_mem_map] at hstands
      exact .compare hstands.1 hstands.2
    | .conditional test yes no =>
      simp only [Expr.children, List.forall_mem_cons] at hstands
      exact .conditional hstands.1 hstands.2.1 hstands.2.2.1
    | .attribute target name =>
      simp only [Expr.children, List.forall_mem_singleton] at hstands
      exact .attribute hstands hnode
    | .item target index =>
      simp only [Expr.children, List.forall_mem_cons] at hstands
      exact .item hstands.1 hstands.2.1
    | .slice target lower upper step =>
      simp only [Expr.children, List.forall_mem_cons, List.forall_mem_append,
        Option.mem_toList] at hstands
      exact .slice hstands.1 hstands.2.1.1 hstands.2.1.2 hstands.2.2
    | .call callee args =>
      simp only [Expr.children, List.forall_mem_cons, List.forall_mem_map] at hstands
      exact .call hstands.1 hstands.2 hnode.2
    | .lambda params body =>
      simp only [Expr.children, List.forall_mem_append, List.forall_mem_singleton] at hstands
      exact .lambda hnode.2 hstands.1 hstands.2

/-- A non-negative integer ends in itself. -/
theorem endsInInteger_int {n : Int64} (hn : 0 ≤ n.toInt) :
    EndsInInteger (Expr.literal (.int n)).operandText := by
  rw [Expr.operandText_of_not_compound (Expr.isCompound_int hn), Expr.text_int hn, Nat.toList_repr]
  exact (isInteger_toDigits _).endsInInteger

/-- How the text of an expression is cut into tokens, by itself and as an operand. -/
structure Joins (e : Expr) : Prop where
  /-- The tokens are those of the parts, except where a dot stands behind a decimal integer. -/
  pieces : lex e.text.toList = e.pieceTokens ↔ ¬e.Fuses
  /-- As an operand an expression has the same tokens, perhaps in brackets. -/
  operand : e.operandPhrase.tokens = if e.isCompound then
    .symbol .openParen :: (e.phrase.tokens ++ [.symbol .closeParen]) else e.phrase.tokens
  /-- The dot of an attribute of an integer literal always stands there. -/
  integer : ∀ n name, e = .attribute (.literal (.int n)) name → e.Fuses
  /-- No dot does in an expression that has no such attribute in front. -/
  bare : e.Fuses → e.Bare

/-- The text of a proper expression is cut where those of its parts are, unless it fuses. -/
theorem Expr.joins {e : Expr} (hproper : e.All Expr.IsProper) : Joins e where
  pieces := (Expr.stands hproper).pieces
  operand := by
    split
    · next hcompound =>
      have hpiece : Piece false _ _ := (Expr.stands hproper).spelt.piece.parens
      rw [operandPhrase, operandText_of_compound hcompound, hpiece.lex_eq]
    · next hcompound =>
      rw [operandPhrase, operandText_of_not_compound (by simpa using hcompound), phrase]
  integer := by
    rintro n name rfl
    have hint := (Expr.all_iff.1 hproper).2 (.literal (.int n)) (by simp [children])
    exact endsInInteger_int (Expr.all_iff.1 hint).1
  bare := by
    intro hfuses
    obtain ⟨target, name, rfl, hends⟩ := Expr.fuses_iff.1 hfuses
    have htarget := (Expr.all_iff.1 hproper).2 target (by simp [children])
    exact .dotted name ((Expr.stands htarget).ends hends).1

/-- In the text of an expression that came from a source, and in that of each of its parts, no
tokens run together but a decimal integer and the dot of an attribute. -/
theorem joins_of_parse {source : String} {e : Expr} (h : parse source = .ok e) : e.All Joins :=
  fun _ hcontains => Expr.joins ((all_isProper_of_parse h).of_contains hcontains)

/-- A sign in front of an attribute keeps its brackets. -/
theorem joins_of_parse_sign :
    ∃ e, parse "(-a).b" = .ok e ∧ e.text = "(-a).b" ∧ e.pieceTokens = sourceTokens "(-a).b" ∧
      e.All Joins := by
  have htokens : sourceTokens "(-a).b" = [.symbol .openParen, .symbol .minus, .name "a",
      .symbol .closeParen, .symbol .dot, .name "b"] := by
    decide +kernel
  have hsign : Derives False .expression [.symbol .minus, .name "a"] (.unary .neg (.var "a")) :=
    .expression_of_negated (.ofComparison
      (@Derives.sign _ .neg _ _ (Derives.ofAtom .name).signed_of_primary).comparison_of_signed)
  have hderives : Derives False .expression (sourceTokens "(-a).b")
      (.attribute (.unary .neg (.var "a")) "b") := by
    rw [htokens]
    exact .expression_of_primary (.dot (.ofAtom (.brackets hsign)))
  have hparse := parse_of_derives_short (by rw [htokens]; decide) hderives
  exact ⟨_, hparse, by decide +kernel, by decide +kernel, joins_of_parse hparse⟩

/-- The brackets around an integer are lost, and its attribute is printed as a float and a name. -/
theorem not_joins_integer :
    ∃ e, parse "(1).real" = .ok e ∧ e.text = "1.real" ∧
      e.pieceTokens = [.int "1", .symbol .dot, .name "real"] ∧
      sourceTokens e.text = [.float "1.", .name "real"] := by
  have htokens : sourceTokens "(1).real" = [.symbol .openParen, .int "1", .symbol .closeParen,
      .symbol .dot, .name "real"] := by
    decide +kernel
  have hone : Derives False .expression [.int "1"] (.literal (.int 1)) :=
    .expression_of_primary (.ofAtom (.literal rfl))
  have hderives : Derives False .expression (sourceTokens "(1).real")
      (.attribute (.literal (.int 1)) "real") := by
    rw [htokens]
    exact .expression_of_primary (.dot (.ofAtom (.brackets hone)))
  have hparse := parse_of_derives_short (by rw [htokens]; decide) hderives
  exact ⟨_, hparse, by decide +kernel, by decide +kernel, by decide +kernel⟩

end ExprLang
