import ExprLang.Expr.Printer
import ExprLang.Proofs.Printing.Proper
import ExprLang.Proofs.Tokens.Decimals
import Mathlib.Data.List.Forall2

/-!
# Texts that are expressions

`Written dot level text e` : the text `text`, cut into tokens in front of anything that comes after
an expression, is the expression `e` of a level. Every node of a tree has a lemma that puts its
text together from the texts of its parts: operators join texts that are written as primaries,
brackets make a primary of anything, and what stands between brackets and commas
(`Pieces.intercalate`) is a whole expression.
-/

namespace ExprLang

open ExprLang.Parser

variable {dot dot' : Bool} {level : Level} {text text' rest : List Char} {ts us : List Token}
  {e : Expr}

/-! ## Texts after a symbol -/

/-- No symbol goes on with the start of a text. -/
def Opens (text : List Char) : Prop :=
  ∀ c ∈ text.head?, opensText c = true

theorem Opens.nil : Opens [] := by
  simp [Opens]

/-- Any text that begins with such a character opens. -/
theorem Opens.cons {c : Char} (h : opensText c = true) : Opens (c :: text) := by
  simpa [Opens] using h

/-- Texts in front of one another open, empty ones too. -/
theorem Opens.append (h : Opens text) (h' : Opens text') : Opens (text ++ text') := by
  cases text with
  | nil => exact h'
  | cons c cs => exact h

/-- A symbol in front of a piece. -/
theorem Piece.symbol {s : Symbol} (hdot : s ≠ .dot) (h : Piece dot text ts) (hopens : Opens text) :
    Piece dot (s.text.toList ++ text) (.symbol s :: ts) := by
  intro rest hrest
  rw [List.append_assoc, lex_symbol_append hdot (hopens.append hrest.opensText), h rest hrest]
  rfl

/-- A colon and what stands behind it. -/
theorem Piece.colon (h : Piece dot text ts) (hopens : Opens text) :
    Piece dot (':' :: text) (.symbol .colon :: ts) :=
  h.symbol (s := .colon) (by decide) hopens

/-- A star is not taken for half of `**`, because what stands behind it opens. -/
theorem Piece.star (h : Piece dot text ts) (hopens : Opens text) :
    Piece dot ('*' :: text) (.symbol .star :: ts) :=
  h.symbol (s := .star) (by decide) hopens

theorem Piece.power (h : Piece dot text ts) (hopens : Opens text) :
    Piece dot ('*' :: '*' :: text) (.symbol .power :: ts) :=
  h.symbol (s := .power) (by decide) hopens

theorem Piece.comma (h : Piece dot text ts) : Piece dot (',' :: text) (.symbol .comma :: ts) := by
  intro rest hrest
  rw [List.cons_append, lex_comma, h rest hrest]
  rfl

theorem Piece.space (h : Piece dot text ts) : Piece dot (' ' :: text) ts := by
  intro rest hrest
  rw [List.cons_append, lex_space, h rest hrest]

/-- A word and a blank in front of a piece. -/
theorem Piece.word {word : String} (hword : IsWord word.toList) (h : Piece dot text ts) :
    Piece dot (word.toList ++ ' ' :: text) (wordToken word :: ts) := by
  have hpiece : Piece dot word.toList [wordToken word] := hword.piece
  exact hpiece.append h.space fun _ _ => .cons (by decide)

/-- A piece, and another one behind a character that comes after an expression. -/
theorem Piece.join {c : Char} (hc : c ∈ separators) (h : Piece dot text ts)
    (h' : Piece dot' (c :: text') us) : Piece dot' (text ++ c :: text') (ts ++ us) :=
  h.append h' fun _ _ => .cons hc

/-- A symbol with blanks around it between two pieces. -/
theorem Piece.aroundSymbol {s : Symbol} (hdot : s ≠ .dot) (h : Piece dot text ts)
    (h' : Piece dot' text' us) :
    Piece dot' (text ++ ' ' :: (s.text.toList ++ ' ' :: text')) (ts ++ .symbol s :: us) :=
  h.join (by decide) (h'.space.symbol hdot (.cons (by decide))).space

/-- A word with blanks around it between two pieces. -/
theorem Piece.aroundWord {word : String} (hword : IsWord word.toList) (h : Piece dot text ts)
    (h' : Piece dot' text' us) :
    Piece dot' (text ++ ' ' :: (word.toList ++ ' ' :: text')) (ts ++ wordToken word :: us) :=
  h.join (by decide) (h'.word hword).space

theorem Keyword.text_isWord (k : Keyword) : IsWord k.text.toList := by
  have table : ∀ k ∈ Keyword.all, k.text.toList.head?.all isNameStart = true ∧
      k.text.toList.all isNameContinue = true ∧ k.text.toList ≠ [] := by
    decide
  obtain ⟨hstarts, hcontinues, hne⟩ := table k (by cases k <;> decide)
  exact ⟨Option.all_eq_true _ _ |>.1 hstarts, List.all_eq_true.1 hcontinues, hne⟩

/-- The spelling of a keyword is lexed as the keyword. -/
theorem Keyword.wordToken_text (k : Keyword) : wordToken k.text = .keyword k := by
  cases k <;> decide

theorem Keyword.piece (k : Keyword) : Piece dot k.text.toList [.keyword k] := by
  rw [← k.wordToken_text]
  exact k.text_isWord.piece

/-- A keyword with blanks around it between two pieces. -/
theorem Piece.aroundKeyword (k : Keyword) (h : Piece dot text ts) (h' : Piece dot' text' us) :
    Piece dot' (text ++ ' ' :: (k.text.toList ++ ' ' :: text')) (ts ++ .keyword k :: us) := by
  rw [← k.wordToken_text]
  exact h.aroundWord k.text_isWord h'

/-! ## Lists -/

/-- Texts that are pieces with these tokens, one by one. -/
def Pieces (texts : List String) (items : List (List Token)) : Prop :=
  List.Forall₂ (fun text ts => Piece false text.toList ts) texts items

theorem Pieces.map {α : Type} {f : α → String} {g : α → List Token} {xs : List α}
    (h : ∀ x ∈ xs, Piece false (f x).toList (g x)) : Pieces (xs.map f) (xs.map g) := by
  rw [Pieces, List.forall₂_map_left_iff, List.forall₂_map_right_iff, List.forall₂_same]
  exact h

/-- One list of texts after another. -/
theorem Pieces.append {texts texts' : List String} {items items' : List (List Token)}
    (h : Pieces texts items) (h' : Pieces texts' items') :
    Pieces (texts ++ texts') (items ++ items') :=
  List.rel_append h h'

/-- The tokens of items with commas between them. -/
def commaTokens (items : List (List Token)) : List Token :=
  [.symbol .comma].intercalate items

theorem commaTokens_cons_cons (ts us : List Token) (items : List (List Token)) :
    commaTokens (ts :: us :: items) = ts ++ .symbol .comma :: commaTokens (us :: items) := by
  simp [commaTokens, List.intercalate_cons_cons]

/-- Items with commas between them are separated by commas. -/
theorem separated_commaTokens (items : List (List Token)) :
    Separated items (commaTokens items) := by
  induction items with
  | nil => exact .none
  | cons ts items ih =>
    match items with
    | [] => simpa [commaTokens] using Separated.last ts
    | us :: items =>
      rw [commaTokens_cons_cons]
      exact .comma ts ih

/-- Pieces with commas between them, with or without blanks behind the commas. -/
theorem Pieces.commas {sep : String} (hsep : sep = "," ∨ sep = ", ") {texts : List String}
    {items : List (List Token)} (h : Pieces texts items) :
    Piece false (sep.intercalate texts).toList (commaTokens items) := by
  have hcomma : ∀ {text : String} {ts : List Token}, Piece false text.toList ts →
      ∃ more, sep.toList ++ text.toList = ',' :: more ∧
        Piece false (',' :: more) (.symbol .comma :: ts) := by
    intro text ts hpiece
    rcases hsep with rfl | rfl
    · exact ⟨_, rfl, hpiece.comma⟩
    · exact ⟨_, rfl, hpiece.space.comma⟩
  induction h with
  | nil => simpa [commaTokens] using Piece.nil
  | @cons text ts texts items h hs ih =>
    match texts, items, hs with
    | [], _, .nil =>
      rw [String.intercalate_singleton]
      simpa [commaTokens] using h
    | next :: texts, us :: items, hs =>
      obtain ⟨more, hmore, hpiece⟩ := hcomma ih
      rw [String.intercalate_cons_cons, String.toList_append, String.toList_append,
        List.append_assoc, hmore, commaTokens_cons_cons]
      exact h.join (by decide) hpiece

/-- A list that is joined with commas is lexed item by item, with a comma between two. -/
theorem Pieces.intercalate {sep : String} (hsep : sep = "," ∨ sep = ", ") {texts : List String}
    {items : List (List Token)} (h : Pieces texts items) :
    ∃ ts, Piece false (sep.intercalate texts).toList ts ∧ Separated items ts :=
  ⟨_, h.commas hsep, separated_commaTokens items⟩

/-! ## Written expressions -/

/-- A text is an expression of a level, whatever comes after it. -/
structure Written (dot : Bool) (level : Level) (text : List Char) (e : Expr) : Prop where
  opens : Opens text
  piece : Piece dot text (lex text)
  derives : Derives False level (lex text) e

/-- What it takes to be written: a text that opens, its tokens, and that they make the
expression. -/
theorem Written.of (hopens : Opens text) (hpiece : Piece dot text ts)
    (h : Derives False level ts e) : Written dot level text e := by
  obtain rfl := hpiece.lex_eq
  exact ⟨hopens, hpiece, h⟩

/-- An expression that is tight enough for one level is so for a looser one. -/
theorem Written.loosen {level' : Level} (h : Written dot level text e)
    (hlevel : Derives False level (lex text) e → Derives False level' (lex text) e) :
    Written dot level' text e :=
  ⟨h.opens, h.piece, hlevel h.derives⟩

/-- A text that may stand in front of a dot may stand elsewhere. -/
theorem Written.mono (h : Written dot level text e) (hdot : dot' = true → dot = true) :
    Written dot' level text e :=
  ⟨h.opens, h.piece.mono hdot, h.derives⟩

/-- A primary is a signed operand. -/
theorem Written.signed (h : Written dot .primary text e) : Written dot .signed text e :=
  h.loosen Derives.signed_of_primary

/-- Any expression in brackets is a primary, in front of a dot too. -/
theorem Written.brackets (h : Written dot .expression text e) :
    Written dot' .primary ('(' :: (text ++ [')'])) e :=
  .of (.cons (by decide)) h.piece.parens (.ofAtom (.brackets h.derives))

/-! ## Leaves -/

/-- A name may open a text, at its first character or at a later one. -/
theorem opensText_of_isNameContinue {c : Char} (h : isNameContinue c = true) :
    opensText c = true := by
  have table : ['*', '/', '<', '>', '='].all (!isNameContinue ·) = true := by decide
  simp only [opensText, Bool.not_eq_true', List.contains_eq_mem, decide_eq_false_iff_not]
  intro hc
  have hc := List.all_eq_true.1 table c hc
  simp [h] at hc

theorem opensText_of_isNameStart {c : Char} (h : isNameStart c = true) : opensText c = true :=
  opensText_of_isNameContinue (isNameContinue_of_isNameStart h)

theorem IsWord.opens {word : List Char} (h : IsWord word) : Opens word :=
  fun c hc => opensText_of_isNameStart (h.starts c hc)

/-- A variable is written as its name. -/
theorem Written.name {name : String} (h : IsName name) :
    Written dot .primary name.toList (.var name) :=
  .of h.word.opens h.piece (.ofAtom .name)

theorem Written.keyword {k : Keyword} {value : Literal}
    (h : (Token.keyword k).literal? = some value) :
    Written dot .primary k.text.toList (.literal value) :=
  .of k.text_isWord.opens k.piece (.ofAtom (.literal h))

/-- A non-negative integer is written as its digits, but not in front of a dot. -/
theorem Written.int {n : Nat} (hn : n ≤ maxInteger) :
    Written false .primary (Nat.repr n).toList (.literal (.int (Int64.ofNat n))) := by
  have hinteger := isInteger_toDigits n
  rw [← Nat.toList_repr] at hinteger
  have hpiece : Piece false (Nat.repr n).toList [.int (Nat.repr n)] := by
    intro rest hrest
    rw [lex_integer hinteger hrest.endsInt, String.ofList_toList]
    rfl
  have hopens : Opens (Nat.repr n).toList := fun c hc => opensText_of_isNameContinue
    (isNameContinue_of_isDigitOrLow (hinteger.2 c (List.mem_of_mem_head? hc)))
  refine .of hopens hpiece (.ofAtom (.literal ?_))
  simp [Token.literal?, integerValue_repr hn, Except.toOption]

/-- A quoted text opens with its quote. -/
theorem opens_quoted (value : String) : Opens (quoted value).toList := by
  rw [quoted, String.toList_ofList]
  refine .cons ?_
  rcases quoteFor_eq value.toList with hq | hq <;> rw [hq] <;> decide

/-- A string inside quotes is one token, whatever is in it. -/
theorem Piece.quoted (value : String) :
    Piece dot (quoted value).toList [.str (String.ofList (value.toList.flatMap reread))] := by
  intro rest _
  rw [ExprLang.quoted, String.toList_ofList, lex_quotedChars]
  rfl

/-- A text without unwritable characters is written as its quotation. -/
theorem Written.string {value : String} (h : ∀ c ∈ value.toList, isUnwritable c = false) :
    Written dot .primary (quoted value).toList (.literal (.str value)) := by
  have hpiece : Piece dot (quoted value).toList _ := .quoted value
  rw [flatMap_reread h, String.ofList_toList] at hpiece
  have hderives := @Derives.strings False value []
  rw [String.join_cons, String.join_nil, String.append_empty] at hderives
  exact .of (opens_quoted value) hpiece (.ofAtom hderives)

/-! ## Operators -/

/-- The text of an operator is that of its symbol, which is not the dot. -/
theorem BinaryOp.symbol_text (op : BinaryOp) : op.symbol.text = op.text ∧ op.symbol ≠ .dot := by
  cases op <;> exact ⟨rfl, by decide⟩

/-- The text of an operator is that of its symbol, which is not the dot. -/
theorem UnaryOp.symbol_text (op : UnaryOp) : op.symbol.text = op.text ∧ op.symbol ≠ .dot := by
  cases op <;> exact ⟨rfl, by decide⟩

theorem Opens.unary (op : UnaryOp) (text : List Char) : Opens (op.text.toList ++ text) := by
  cases op <;> exact .cons (by decide)

theorem Piece.unary (op : UnaryOp) (h : Piece dot text ts) (hopens : Opens text) :
    Piece dot (op.text.toList ++ text) (.symbol op.symbol :: ts) := by
  obtain ⟨htext, hdot⟩ := op.symbol_text
  rw [← htext]
  exact h.symbol hdot hopens

/-- A sign in front of a signed operand. -/
theorem Written.unary (op : UnaryOp) (h : Written dot .signed text e) :
    Written dot .signed (op.text.toList ++ text) (.unary op e) :=
  .of (.unary op text) (h.piece.unary op h.opens) (.sign h.derives)

/-- The spaces keep an operator apart from its operands. -/
theorem Piece.binary (op : BinaryOp) (h : Piece dot text ts) (h' : Piece dot' text' us) :
    Piece dot' (text ++ ' ' :: (op.text.toList ++ ' ' :: text'))
      (ts ++ .symbol op.symbol :: us) := by
  obtain ⟨htext, hdot⟩ := op.symbol_text
  rw [← htext]
  exact h.aroundSymbol hdot h'

/-- A binary operator between a primary and a signed operand. -/
theorem Written.binary {l r : Expr} (op : BinaryOp) (hl : Written dot .primary text l)
    (hr : Written dot' .signed text' r) :
    Written dot' .comparison (text ++ ' ' :: (op.text.toList ++ ' ' :: text'))
      (.binary op l r) :=
  .of (hl.opens.append (.cons (by decide))) (hl.piece.binary op hr.piece)
    (.ofBinary (hl.derives.operation op hr.derives))

/-- The word of an operator. -/
def BoolOp.keyword : BoolOp → Keyword
  | .and => .andWord
  | .or => .orWord

theorem Piece.bool (op : BoolOp) (h : Piece dot text ts) (h' : Piece dot' text' us) :
    Piece dot' (text ++ ' ' :: (op.text.toList ++ ' ' :: text'))
      (ts ++ .keyword op.keyword :: us) := by
  cases op with
  | and => exact h.aroundKeyword .andWord h'
  | or => exact h.aroundKeyword .orWord h'

theorem Written.bool {l r : Expr} (op : BoolOp) (hl : Written dot .primary text l)
    (hr : Written dot' .primary text' r) :
    Written dot' .expression (text ++ ' ' :: (op.text.toList ++ ' ' :: text')) (.bool op l r) := by
  have hleft := hl.derives.signed_of_primary.conjunction_of_signed
  have hright := hr.derives.signed_of_primary
  refine .of (hl.opens.append (.cons (by decide))) (hl.piece.bool op hr.piece) ?_
  cases op with
  | and =>
    exact .ofDisjunction (.ofConjunction (.and hleft (.ofComparison hright.comparison_of_signed)))
  | or => exact .ofDisjunction (.or (.ofConjunction hleft) hright.conjunction_of_signed)

theorem Piece.not (h : Piece dot text ts) :
    Piece dot ("not ".toList ++ text) (.keyword .notWord :: ts) :=
  h.word Keyword.notWord.text_isWord

theorem Written.not (h : Written dot .primary text e) :
    Written dot .expression ("not ".toList ++ text) (.not e) :=
  .of (.cons (by decide)) h.piece.not (.expression_of_negated
    (.not (.ofComparison h.derives.signed_of_primary.comparison_of_signed)))

theorem Piece.conditional {ys ns : List Char} {before after : List Token}
    (hyes : Piece dot ys before) (htest : Piece dot text ts) (hno : Piece dot' ns after) :
    Piece dot' (ys ++ " if ".toList ++ text ++ " else ".toList ++ ns)
      (before ++ .keyword .ifWord :: (ts ++ .keyword .elseWord :: after)) := by
  have hpiece := hyes.aroundKeyword .ifWord (htest.aroundKeyword .elseWord hno)
  have htext : ys ++ " if ".toList ++ text ++ " else ".toList ++ ns
      = ys ++ ' ' :: (Keyword.ifWord.text.toList ++ ' ' ::
        (text ++ ' ' :: (Keyword.elseWord.text.toList ++ ' ' :: ns))) := by
    simp [Keyword.text]
  rwa [htext]

theorem Written.conditional {yes test no : Expr} {ys ns : List Char}
    (hyes : Written dot .primary ys yes) (htest : Written dot .primary text test)
    (hno : Written dot' .primary ns no) :
    Written dot' .expression (ys ++ " if ".toList ++ text ++ " else ".toList ++ ns)
      (.conditional test yes no) := by
  have hopens : Opens (ys ++ " if ".toList ++ text ++ " else ".toList ++ ns) := by
    simp only [List.append_assoc]
    exact hyes.opens.append (.cons (by decide))
  exact .of hopens (hyes.piece.conditional htest.piece hno.piece)
    (.conditional (.ofConjunction hyes.derives.signed_of_primary.conjunction_of_signed)
      (.ofConjunction htest.derives.signed_of_primary.conjunction_of_signed)
      hno.derives.expression_of_primary)

/-! ## Comparison chains -/

/-- The text of a link, with its operand. -/
def linkText (op : Comparison) (text : List Char) : List Char :=
  ' ' :: (op.text.toList ++ ' ' :: text)

theorem Piece.link (op : Comparison) (h : Piece dot text ts) :
    Piece dot (linkText op text) (op.tokens ++ ts) := by
  have hsymbol : ∀ s : Symbol, s ≠ .dot →
      Piece dot (' ' :: (s.text.toList ++ ' ' :: text)) (.symbol s :: ts) := fun s hdot =>
    (h.space.symbol hdot (.cons (by decide))).space
  have hword :
      ∀ k : Keyword, Piece dot (' ' :: (k.text.toList ++ ' ' :: text)) (.keyword k :: ts) :=
    fun k => by simpa only [k.wordToken_text] using (h.word k.text_isWord).space
  cases op with
  | equal => exact hsymbol .equal (by decide)
  | notEqual => exact hsymbol .notEqual (by decide)
  | less => exact hsymbol .less (by decide)
  | lessEqual => exact hsymbol .lessEqual (by decide)
  | greater => exact hsymbol .greater (by decide)
  | greaterEqual => exact hsymbol .greaterEqual (by decide)
  | isIn => exact hword .inWord
  | same => exact hword .isWord
  | notIn => exact ((h.word Keyword.inWord.text_isWord).word Keyword.notWord.text_isWord).space
  | notSame => exact ((h.word Keyword.notWord.text_isWord).word Keyword.isWord.text_isWord).space

theorem Piece.links {links : List (Comparison × List Char × Expr)}
    (h : ∀ l ∈ links, Piece false l.2.1 (lex l.2.1)) :
    Piece false (links.flatMap fun l => linkText l.1 l.2.1)
      (linkTokens (links.map fun l => (l.1, ⟨lex l.2.1, l.2.2⟩))) := by
  induction links with
  | nil => exact .nil
  | cons l links ih =>
    have hlink := (h l (by simp)).link l.1
    have hmore := ih fun l' hl' => h l' (List.mem_cons_of_mem _ hl')
    refine hlink.append hmore fun rest hrest => ?_
    cases links with
    | nil => exact hrest
    | cons next links => exact .cons (by decide)

theorem Opens.links (links : List (Comparison × List Char × Expr)) :
    Opens (links.flatMap fun l => linkText l.1 l.2.1) := by
  cases links with
  | nil => exact .nil
  | cons l links => exact .cons (by decide)

/-- The links of a chain behind its first operand. -/
theorem Piece.compare {links : List (Comparison × List Char × Expr)} (h : Piece false text ts)
    (hlinks : ∀ l ∈ links, Piece false l.2.1 (lex l.2.1)) :
    Piece false (text ++ links.flatMap fun l => linkText l.1 l.2.1)
      (ts ++ linkTokens (links.map fun l => (l.1, ⟨lex l.2.1, l.2.2⟩))) := by
  refine h.append (.links hlinks) fun rest hrest => ?_
  cases links with
  | nil => exact hrest
  | cons l links => exact .cons (by decide)

/-- A chain of comparisons, with at least one link. -/
theorem Written.compare {first : Expr} {links : List (Comparison × List Char × Expr)}
    (h : Written dot .primary text first) (hne : links ≠ [])
    (hlinks : ∀ l ∈ links, Written false .signed l.2.1 l.2.2) :
    Written false .comparison (text ++ links.flatMap fun l => linkText l.1 l.2.1)
      (.compare first (links.map fun l => (l.1, l.2.2))) := by
  have hpieces := (h.piece.mono (by simp)).compare fun l hl => (hlinks l hl).piece
  refine .of (h.opens.append (.links links)) hpieces ?_
  have hphrases : ∀ l ∈ links.map fun l => (l.1, (⟨lex l.2.1, l.2.2⟩ : Phrase)),
      Derives False (.binary 0) l.2.tokens l.2.tree := by
    simp only [List.forall_mem_map]
    exact fun l hl => (hlinks l hl).derives.binary_of_signed (Nat.zero_le _)
  have hcompare := Derives.compare (h.derives.signed_of_primary.binary_of_signed (Nat.zero_le _))
    (by simpa using hne) hphrases
  rw [List.map_map] at hcompare
  exact hcompare

/-! ## Trailers -/

/-- A name with a dot before it. -/
theorem Piece.dotted {name : String} (hname : IsName name) :
    Piece dot ('.' :: name.toList) [.symbol .dot, .name name] := by
  have hafter : ∀ rest, ∀ c ∈ (name.toList ++ rest).head?, Symbol.dot.extends c = false := by
    intro rest c hc
    obtain ⟨d, ds, hword⟩ := List.exists_cons_of_ne_nil hname.word.ne_nil
    rw [hword] at hc
    obtain rfl : d = c := by simpa using hc
    have hd := hname.word.starts d (by simp [hword])
    refine Symbol.extends_eq_false (opensText_of_isNameStart hd) fun _ => ?_
    cases hdigit : d.isDigit with
    | false => rfl
    | true => simp [isNameStart_of_isDigit hdigit] at hd
  intro rest hrest
  have hlex := lex_symbol (hafter rest)
  rw [hname.piece rest hrest] at hlex
  exact hlex

/-- A dot and a name behind a text that may stand in front of a dot. -/
theorem Piece.attribute {name : String} (h : Piece true text ts) (hname : IsName name) :
    Piece dot (text ++ '.' :: name.toList) (ts ++ [.symbol .dot, .name name]) :=
  h.append (.dotted hname) fun _ _ => .point

/-- An attribute of a primary that may stand in front of a dot. -/
theorem Written.attribute {name : String} (h : Written true .primary text e) (hname : IsName name) :
    Written dot .primary (text ++ '.' :: name.toList) (.attribute e name) :=
  .of (h.opens.append (.cons (by decide))) (h.piece.attribute hname) (.dot h.derives)

theorem Written.item {index : Expr} (h : Written dot .primary text e)
    (hindex : Written false .expression text' index) :
    Written dot' .primary (text ++ '[' :: (text' ++ [']'])) (.item e index) :=
  .of (h.opens.append (.cons (by decide))) (h.piece.join (by decide) hindex.piece.squares)
    (.item h.derives hindex.derives)

/-- A call, if its arguments are written and stand in order. -/
theorem Written.call {callee : Expr} {texts : List String} {args : List (Argument Phrase)}
    (h : Written dot .primary text callee)
    (htexts : Pieces texts (args.map Argument.tokens))
    (hargs : ∀ a ∈ args, Derives False .expression a.value.tokens a.value.tree)
    (hordered : ArgumentsOrdered args) :
    Written dot' .primary (text ++ '(' :: ((listed texts).toList ++ [')']))
      (.call callee (args.map (Argument.map Phrase.tree))) := by
  obtain ⟨ts, hpiece, hsep⟩ := htexts.intercalate (.inr rfl)
  exact .of (h.opens.append (.cons (by decide))) (h.piece.join (by decide) hpiece.parens)
    (.call h.derives hargs hordered hsep)

/-! ## Functions -/

/-- A name with a value behind an equals sign. -/
theorem Piece.assigned {name : String} (hname : IsName name) (h : Piece dot text ts)
    (hopens : Opens text) :
    Piece dot (name.toList ++ '=' :: text) (.name name :: .symbol .assign :: ts) := by
  intro rest hrest
  have hequals : ∀ c ∈ ('=' :: (text ++ rest)).head?, isNameContinue c = false := by
    rintro c ⟨⟩
    decide
  have hassign : lex ('=' :: (text ++ rest)) = .symbol .assign :: (ts ++ lex rest) := by
    rw [lex_assign (hopens.append hrest.opensText), h rest hrest]
  rw [List.append_assoc, List.cons_append, lex_word hname.word hequals, String.ofList_toList,
    hname.free, hassign]
  rfl

/-- The colon of a lambda ends its parameters. -/
theorem Piece.lambdaText {params body : String} (hparams : Piece false params.toList ts)
    (hbody : Piece dot body.toList us) :
    Piece dot (lambdaText params body).toList
      (.keyword .lambdaWord :: (ts ++ .symbol .colon :: us)) := by
  have hword : Piece true "lambda".toList [.keyword .lambdaWord] :=
    Keyword.lambdaWord.text_isWord.piece
  have hcolon := hbody.space.colon (.cons (by decide))
  unfold ExprLang.lambdaText
  split
  · next hempty =>
    obtain rfl : params = "" := by simpa using hempty
    obtain rfl : ts = [] := by simpa using hparams.lex_eq.symm
    have htext : ("lambda: " ++ body).toList = "lambda".toList ++ ':' :: ' ' :: body.toList := by
      simp
    rw [htext]
    exact hword.join (by decide) hcolon
  · have htext : ("lambda " ++ params ++ ": " ++ body).toList
        = "lambda".toList ++ ' ' :: (params.toList ++ ':' :: ' ' :: body.toList) := by
      simp
    rw [htext]
    exact hword.join (by decide) (hparams.join (by decide) hcolon).space

theorem opens_lambdaText (params body : String) : Opens (lambdaText params body).toList := by
  unfold lambdaText
  split <;> simp <;> exact .cons (by decide)

/-- A lambda, if its parameters are written and valid. -/
theorem Written.lambda {texts : List String} {ps : Params Phrase} {text : String} {body : Expr}
    (htexts : Pieces texts ps.tokens)
    (hdefaults : ∀ p ∈ ps.defaults, Derives False .expression p.tokens p.tree)
    (hvalid : ps.Valid) (hbody : Written false .expression text.toList body) :
    Written false .expression (lambdaText (listed texts) text).toList
      (.lambda (ps.map Phrase.tree) body) := by
  obtain ⟨ts, hpiece, hsep⟩ := htexts.intercalate (.inr rfl)
  exact .of (opens_lambdaText _ _) (Piece.lambdaText hpiece hbody.piece)
    (.ofFunction (.function hdefaults hvalid hsep hbody.derives))

end ExprLang
