import ExprLang.Proofs.Printing.Parts

/-!
# Reading a printed expression

`parse_text` : the canonical text of an expression that came from a source is read as the same
expression, or it is nested too deeply. Left out are floats and imaginary numbers, which are
written as they are shown, strings with characters that have no escape, and attributes of integer
literals, whose dot would belong to the number (`Expr.IsReadable`).

The text of each node is put together from the texts of its parts: on its own it is a whole
expression, and as an operand, in brackets where `Expr.isCompound` asks for them, a primary
(`Printed`). The induction is on the expression (`Expr.printed`).
-/

namespace ExprLang

open ExprLang.Parser

/-! ## What is printed -/

/-- Whether an expression is an integer literal. -/
def Expr.isInteger : Expr → Bool
  | .literal (.int _) => true
  | _ => false

/-- What an expression may be for its text to be read again, its parts aside. -/
def Expr.IsReadable : Expr → Prop
  | .literal (.float _) | .literal (.imaginary _) => False
  | .literal (.str s) => ∀ c ∈ s.toList, isControl c = true → c = '\n' ∨ c = '\t' ∨ c = '\r'
  | .attribute target _ => target.isInteger = false
  | _ => True

/-- The text of an expression is that expression, on its own and as an operand. -/
structure Printed (e : Expr) : Prop where
  whole : Written false .expression e.text.toList e
  operand : Written (!e.isInteger) .primary e.operandText e

/-- A compound expression is printed if its text reads as an expression. -/
theorem Printed.of_compound {e : Expr} (hcompound : e.isCompound = true)
    (h : Written false .expression e.text.toList e) : Printed e := by
  refine ⟨h, ?_⟩
  rw [Expr.operandText_of_compound hcompound]
  exact h.brackets

/-- Any other is printed if its text reads as a primary. -/
theorem Printed.of_primary {e : Expr} (hcompound : e.isCompound = false)
    (h : Written (!e.isInteger) .primary e.text.toList e) : Printed e := by
  refine ⟨(h.mono (by simp)).loosen Derives.expression_of_primary, ?_⟩
  rw [Expr.operandText_of_not_compound hcompound]
  exact h

/-- An operand reads as a primary, in brackets or without. -/
theorem Printed.operand_false {e : Expr} (h : Printed e) :
    Written false .primary e.operandText e :=
  h.operand.mono (by simp)

theorem Printed.operand_signed {e : Expr} (h : Printed e) :
    Written false .signed e.operandText e :=
  h.operand_false.signed

/-- What is printed is spelt by its own tokens. -/
theorem Printed.spelt {e : Expr} (h : Printed e) : Spelt e :=
  ⟨h.whole.opens, h.whole.piece⟩

theorem Printed.derives {e : Expr} (h : Printed e) :
    Derives False .expression e.phrase.tokens e.phrase.tree :=
  h.whole.derives

/-! ## Literals -/

/-- A non-negative integer is printed, though not in front of a dot. -/
theorem Printed.int {n : Int64} (hn : 0 ≤ n.toInt) : Printed (.literal (.int n)) := by
  have hvalue : Int64.ofNat n.toInt.natAbs = n := by
    have hcast : (n.toInt.natAbs : Int) = n.toInt := by omega
    rw [← Int64.ofInt_eq_ofNat, hcast, Int64.ofInt_toInt]
  have hlt := Int64.toInt_lt n
  have hmax : maxInteger = 9223372036854775807 := rfl
  have hwritten := @Written.int n.toInt.natAbs (by omega)
  rw [hvalue] at hwritten
  exact .of_primary (Expr.isCompound_int hn) (by rwa [Expr.text_int hn])

/-- A literal that the printer writes as itself and that can be read is printed. -/
theorem Printed.literal {value : Literal} (hproper : (Expr.literal value).IsProper)
    (hreadable : (Expr.literal value).IsReadable) : Printed (.literal value) := by
  match value with
  | .none => exact .of_primary rfl (.keyword (k := .noneWord) rfl)
  | .bool true => exact .of_primary rfl (.keyword (k := .trueWord) rfl)
  | .bool false => exact .of_primary rfl (.keyword (k := .falseWord) rfl)
  | .int n => exact .int hproper
  | .float x | .imaginary x => exact hreadable.elim
  | .str s =>
    refine .of_primary rfl (.string fun c hc => ?_)
    cases hcontrol : isControl c with
    | false => simp [isUnwritable, hcontrol]
    | true => rcases hreadable c hc hcontrol with rfl | rfl | rfl <;> rfl

/-! ## Operators -/

/-- A sign is as tight as what it applies to. -/
theorem Printed.unary {op : UnaryOp} {e : Expr} (h : Printed e) : Printed (.unary op e) := by
  have hwritten := h.operand_signed.unary op
  refine .of_compound rfl ?_
  rw [Expr.text_unary]
  exact hwritten.loosen fun h => .expression_of_negated (.ofComparison h.comparison_of_signed)

theorem Printed.binary {op : BinaryOp} {l r : Expr} (hl : Printed l) (hr : Printed r) :
    Printed (.binary op l r) := by
  have hwritten := hl.operand.binary op hr.operand_signed
  refine .of_compound rfl ?_
  rw [Expr.text_binary]
  exact hwritten.loosen fun h => .expression_of_negated (.ofComparison h)

theorem Printed.bool {op : BoolOp} {l r : Expr} (hl : Printed l) (hr : Printed r) :
    Printed (.bool op l r) := by
  have hwritten := hl.operand.bool op hr.operand_false
  refine .of_compound rfl ?_
  rw [Expr.text_bool]
  exact hwritten

theorem Printed.not {e : Expr} (h : Printed e) : Printed (.not e) := by
  refine .of_compound rfl ?_
  rw [Expr.text_not]
  exact h.operand_false.not

theorem Printed.conditional {test yes no : Expr} (htest : Printed test) (hyes : Printed yes)
    (hno : Printed no) : Printed (.conditional test yes no) := by
  refine .of_compound rfl ?_
  rw [Expr.text_conditional]
  exact hyes.operand_false.conditional htest.operand_false hno.operand_false

theorem Printed.compare {first : Expr} {links : List (Comparison × Expr)} (h : Printed first)
    (hne : links ≠ []) (hlinks : ∀ l ∈ links, Printed l.2) : Printed (.compare first links) := by
  have hsigned : ∀ l ∈ links.map fun l => (l.1, l.2.operandText, l.2),
      Written false .signed l.2.1 l.2.2 := by
    simp only [List.forall_mem_map]
    exact fun l hl => (hlinks l hl).operand_signed
  have hwritten := h.operand.compare (by simpa using hne) hsigned
  have htree :
      links.map ((fun l => (l.1, l.2.2)) ∘ fun l => (l.1, l.2.operandText, l.2)) = links := by
    simp [Function.comp_def]
  rw [List.flatMap_map, List.map_map, htree] at hwritten
  refine .of_compound rfl ?_
  rw [Expr.text_compare]
  exact hwritten.loosen fun h => .expression_of_negated (.ofComparison h)

/-! ## Trailers -/

/-- The target of an attribute is printed, unless it is an integer, whose text takes the dot. -/
theorem Printed.attribute {target : Expr} {name : String} (h : Printed target)
    (hname : IsName name) (hinteger : target.isInteger = false) :
    Printed (.attribute target name) := by
  have hoperand := h.operand
  rw [hinteger] at hoperand
  refine .of_primary rfl ?_
  rw [Expr.text_attribute]
  exact hoperand.attribute hname

/-- The index of an item needs no brackets. -/
theorem Printed.item {target index : Expr} (h : Printed target) (hindex : Printed index) :
    Printed (.item target index) := by
  refine .of_primary rfl ?_
  rw [Expr.text_item]
  exact h.operand.item hindex.whole

/-- A part of a slice that is not left out is derived. -/
theorem Printed.part_derives {part : Option Expr} (h : ∀ e ∈ part, Printed e) :
    ∀ p ∈ part.map Expr.phrase, Derives False .expression p.tokens p.tree := by
  intro p hp
  obtain ⟨e, he, rfl⟩ := Option.map_eq_some_iff.1 hp
  exact (h e he).derives

/-- Phrases give back the expressions that they are of. -/
theorem map_tree_phrase (part : Option Expr) : (part.map Expr.phrase).map Phrase.tree = part := by
  cases part <;> rfl

/-- A slice with any of its parts. -/
theorem Printed.slice {target : Expr} {lower upper step : Option Expr} (h : Printed target)
    (hlower : ∀ e ∈ lower, Printed e) (hupper : ∀ e ∈ upper, Printed e)
    (hstep : ∀ e ∈ step, Printed e) : Printed (.slice target lower upper step) := by
  have hspelt : ∀ part : Option Expr, (∀ e ∈ part, Printed e) → ∀ e ∈ part, Spelt e :=
    fun part hpart e he => (hpart e he).spelt
  have hparts := Spelt.slice (hspelt lower hlower) (hspelt upper hupper) (hspelt step hstep)
  have hpiece : Piece true _ _ := h.operand.piece.join (by decide) hparts.squares
  have hsteps : ∀ p ∈ (step.map fun e => some e.phrase).join,
      Derives False .expression p.tokens p.tree := by
    cases step with
    | none => simp
    | some e => simpa using (hstep e rfl).derives
  have hderives := Derives.slice h.operand.derives (Printed.part_derives hlower)
    (Printed.part_derives hupper) hsteps
  have hjoin : (step.map fun e => some e.phrase).join.map Phrase.tree = step := by
    cases step <;> rfl
  rw [map_tree_phrase, map_tree_phrase, hjoin] at hderives
  refine .of_primary rfl ?_
  rw [Expr.text_slice]
  refine .of (h.operand.opens.append (.cons (by decide))) ?_ hderives
  simp only [List.append_assoc, List.cons_append] at hpiece ⊢
  exact hpiece

/-! ## Arguments -/

/-- Phrases give back the arguments that they are of. -/
theorem map_argument_phrase_tree (args : List (Argument Expr)) :
    (args.map (Argument.map Expr.phrase)).map (Argument.map Phrase.tree) = args := by
  rw [List.map_map, List.map_congr_left (fun a _ => ?_), List.map_id]
  cases a <;> rfl

/-- A call whose arguments are in order and whose keywords are names. -/
theorem Printed.call {callee : Expr} {args : List (Argument Expr)} (h : Printed callee)
    (hargs : ∀ a ∈ args, Printed a.value) (hordered : ArgumentsOrdered args)
    (hnames : ∀ name e, .keyword name e ∈ args → IsName name) : Printed (.call callee args) := by
  have htexts := Pieces.arguments (fun a ha => (hargs a ha).spelt) hnames
  have hderives : ∀ a ∈ args.map (Argument.map Expr.phrase),
      Derives False .expression a.value.tokens a.value.tree := by
    simp only [List.forall_mem_map, Argument.value_map]
    exact fun a ha => (hargs a ha).derives
  have hwritten : Written true .primary _ _ :=
    h.operand.call htexts hderives ((argumentsOrdered_map _ _).2 hordered)
  rw [map_argument_phrase_tree] at hwritten
  refine .of_primary rfl ?_
  rw [Expr.text_call]
  exact hwritten

/-! ## Displays -/

theorem Printed.items {items : List Expr} (h : ∀ e ∈ items, Printed e) :
    ∃ ts, Piece false (listed (items.map Expr.text)).toList ts ∧
      Separated ((items.map Expr.phrase).map Phrase.tokens) ts :=
  (Pieces.items fun e he => (h e he).spelt).intercalate (.inr rfl)

/-- Each item is derived from its own tokens. -/
theorem Printed.items_derives {items : List Expr} (h : ∀ e ∈ items, Printed e) :
    ∀ p ∈ items.map Expr.phrase, Derives False .expression p.tokens p.tree := by
  simp only [List.forall_mem_map]
  exact fun e he => (h e he).derives

theorem map_phrase_tree (items : List Expr) : (items.map Expr.phrase).map Phrase.tree = items := by
  rw [List.map_map]
  exact List.map_id items

theorem Printed.list {items : List Expr} (h : ∀ e ∈ items, Printed e) : Printed (.list items) := by
  obtain ⟨ts, hpiece, hsep⟩ := Printed.items h
  have hderives := Derives.list (Printed.items_derives h) hsep
  rw [map_phrase_tree] at hderives
  refine .of_primary rfl ?_
  rw [Expr.text_list]
  exact .of (.cons (by decide)) hpiece.squares (.ofAtom hderives)

/-- A tuple is written with a comma after a single item. -/
theorem Printed.tuple {items : List Expr} (h : ∀ e ∈ items, Printed e) :
    Printed (.tuple items) := by
  have hitems := Printed.items_derives h
  refine .of_primary rfl ?_
  match items with
  | [] => exact .of (.cons (by decide)) (Piece.parens (@Piece.nil false)) (.ofAtom .unit)
  | [e] =>
    have hcomma : Piece false [','] [.symbol .comma] :=
      Piece.nil.symbol (s := .comma) (by decide) .nil
    have hinside := (h e (by simp)).spelt.piece.join (by decide) hcomma
    have hderives : Derives False .atom _ (.tuple [e]) := .tuple hitems .none
    rw [Expr.text_tuple_singleton]
    refine .of (.cons (by decide)) hinside.parens (.ofAtom ?_)
    simpa using hderives
  | first :: second :: more =>
    obtain ⟨ts, hpiece, hsep⟩ := Printed.items h
    rw [Expr.text_tuple_cons_cons]
    cases hsep with
    | comma _ hsep =>
      have htree := map_phrase_tree (first :: second :: more)
      have hderives := Derives.tuple hitems hsep
      simp only [List.map_cons] at htree hderives
      rw [htree] at hderives
      refine .of (.cons (by decide)) hpiece.parens (.ofAtom ?_)
      rw [List.append_assoc, List.cons_append]
      exact hderives

/-- A dict display, whose entries are pairs of phrases. -/
theorem Printed.dict {entries : List (Expr × Expr)} (hkeys : ∀ p ∈ entries, Printed p.1)
    (hvalues : ∀ p ∈ entries, Printed p.2) : Printed (.dict entries) := by
  have htexts := Pieces.entries (fun p hp => (hkeys p hp).spelt) fun p hp => (hvalues p hp).spelt
  obtain ⟨ts, hpiece, hsep⟩ := htexts.intercalate (.inr rfl)
  have hderives : Derives False .atom (.symbol .openBrace :: (ts ++ [.symbol .closeBrace]))
      (.dict ((entries.map fun p => (p.1.phrase, p.2.phrase)).map
        fun p => (p.1.tree, p.2.tree))) := by
    refine .dict ?_ ?_ hsep
    · simp only [List.forall_mem_map]
      exact fun p hp => (hkeys p hp).derives
    · simp only [List.forall_mem_map]
      exact fun p hp => (hvalues p hp).derives
  have htree : (entries.map fun p => (p.1.phrase, p.2.phrase)).map (fun p => (p.1.tree, p.2.tree))
      = entries := by
    rw [List.map_map]
    exact List.map_id entries
  rw [htree] at hderives
  refine .of_primary rfl ?_
  rw [Expr.text_dict]
  exact .of (.cons (by decide)) hpiece.braces (.ofAtom hderives)

/-! ## Functions -/

/-- Phrases give back the parameters that they are of. -/
theorem Params.map_tree_phrase (ps : Params Expr) :
    (ps.map Expr.phrase).map Phrase.tree = ps := by
  have hparam : ∀ p : Param Expr, (p.map Expr.phrase).map Phrase.tree = p :=
    fun ⟨name, default⟩ => by cases default <;> rfl
  simp [Params.map, Function.comp_def, hparam]

/-- A lambda with valid parameters that are named by names. -/
theorem Printed.lambda {ps : Params Expr} {body : Expr} (hvalid : ps.Valid)
    (hnames : ∀ name ∈ ps.declared, IsName name) (hdefaults : ∀ e ∈ ps.defaults, Printed e)
    (hbody : Printed body) : Printed (.lambda ps body) := by
  have hderives : ∀ p ∈ (ps.map Expr.phrase).defaults,
      Derives False .expression p.tokens p.tree := by
    rw [Params.defaults_map, List.forall_mem_map]
    exact fun e he => (hdefaults e he).derives
  have hpieces := Pieces.params hnames fun e he => (hdefaults e he).spelt
  have hwritten := Written.lambda hpieces hderives (hvalid.map _) hbody.whole
  rw [Params.map_tree_phrase] at hwritten
  refine .of_compound rfl ?_
  rw [Expr.text_lambda]
  exact hwritten

/-! ## All expressions -/

/-- The text of a proper expression that has a text of its own is that expression. -/
theorem Expr.printed {e : Expr} (hproper : e.All Expr.IsProper)
    (hreadable : e.All Expr.IsReadable) : Printed e := by
  induction e using Expr.induct_children with
  | h e ih =>
    obtain ⟨hproper, hparts⟩ := Expr.all_iff.1 hproper
    obtain ⟨hreadable, hreadables⟩ := Expr.all_iff.1 hreadable
    have hprinted : ∀ c ∈ e.children, Printed c :=
      fun c hc => ih c hc (hparts c hc) (hreadables c hc)
    match e with
    | .literal value => exact .literal hproper hreadable
    | .var name => exact .of_primary rfl (.name hproper)
    | .tuple items => exact .tuple hprinted
    | .list items => exact .list hprinted
    | .dict entries =>
      simp only [Expr.children, List.forall_mem_append, List.forall_mem_map] at hprinted
      exact .dict hprinted.1 hprinted.2
    | .unary op a =>
      simp only [Expr.children, List.forall_mem_singleton] at hprinted
      exact .unary hprinted
    | .not a =>
      simp only [Expr.children, List.forall_mem_singleton] at hprinted
      exact .not hprinted
    | .binary op l r =>
      simp only [Expr.children, List.forall_mem_cons] at hprinted
      exact .binary hprinted.1 hprinted.2.1
    | .bool op l r =>
      simp only [Expr.children, List.forall_mem_cons] at hprinted
      exact .bool hprinted.1 hprinted.2.1
    | .compare first links =>
      simp only [Expr.children, List.forall_mem_cons, List.forall_mem_map] at hprinted
      exact .compare hprinted.1 hproper hprinted.2
    | .conditional test yes no =>
      simp only [Expr.children, List.forall_mem_cons] at hprinted
      exact .conditional hprinted.1 hprinted.2.1 hprinted.2.2.1
    | .attribute target name =>
      simp only [Expr.children, List.forall_mem_singleton] at hprinted
      exact .attribute hprinted hproper hreadable
    | .item target index =>
      simp only [Expr.children, List.forall_mem_cons] at hprinted
      exact .item hprinted.1 hprinted.2.1
    | .slice target lower upper step =>
      simp only [Expr.children, List.forall_mem_cons, List.forall_mem_append,
        Option.mem_toList] at hprinted
      exact .slice hprinted.1 hprinted.2.1.1 hprinted.2.1.2 hprinted.2.2
    | .call callee args =>
      simp only [Expr.children, List.forall_mem_cons, List.forall_mem_map] at hprinted
      exact .call hprinted.1 hprinted.2 hproper.1 hproper.2
    | .lambda params body =>
      simp only [Expr.children, List.forall_mem_append, List.forall_mem_singleton] at hprinted
      exact .lambda hproper.1 hproper.2 hprinted.1 hprinted.2

/-- The canonical text of an expression that came from a source is read as that expression, or it
is nested too deeply. -/
theorem parse_text {source : String} {e : Expr} (h : parse source = .ok e)
    (hreadable : e.All Expr.IsReadable) :
    parse e.text = .ok e ∨ maxNesting ≤ (sourceTokens e.text).length ∧
      ∃ pos, parse e.text = .error ⟨pos, .tooDeep⟩ := by
  have hprinted := Expr.printed (all_isProper_of_parse h) hreadable
  exact parse_of_derives hprinted.whole.derives

/-- A sum with a signed term is printed with brackets around it. -/
theorem parse_text_sum :
    ∃ e, parse "a+-b" = .ok e ∧ e.text = "a + (-b)" ∧ e.All Expr.IsReadable ∧
      parse e.text = .ok e := by
  have htokens : sourceTokens "a+-b" = [.name "a", .symbol .plus, .symbol .minus, .name "b"] := by
    decide +kernel
  have hname : ∀ name, Derives False .primary [.name name] (.var name) := fun _ => .ofAtom .name
  have hsum : Derives False .expression (sourceTokens "a+-b")
      (.binary .add (.var "a") (.unary .neg (.var "b"))) := by
    rw [htokens]
    exact .expression_of_negated (.ofComparison (.ofBinary
      (.operation .add (hname "a") (@Derives.sign _ .neg _ _ (hname "b").signed_of_primary))))
  have hparse := parse_of_derives_short (by rw [htokens]; decide) hsum
  have hvar : ∀ name, (Expr.var name).All Expr.IsReadable := fun _ => Expr.all_leaf trivial rfl
  have hneg : (Expr.unary .neg (.var "b")).All Expr.IsReadable :=
    Expr.all_iff.2 ⟨trivial, by simpa [Expr.children] using hvar "b"⟩
  have hreadable : (Expr.binary .add (.var "a") (.unary .neg (.var "b"))).All Expr.IsReadable :=
    Expr.all_iff.2 ⟨trivial, by simpa [Expr.children] using ⟨hvar "a", hneg⟩⟩
  refine ⟨_, hparse, by decide +kernel, hreadable, (parse_text hparse hreadable).resolve_right ?_⟩
  exact fun hdeep => absurd hdeep.1 (by decide +kernel)

end ExprLang
