import ExprLang.Proofs.Parsing.Subexpressions
import ExprLang.Proofs.Printing.Pieces

/-!
# Trees that come from a source

Every part of a tree that the parser returns is proper (`all_isProper_of_parse`) : integers are not
negative, names are spelt like names and mean nothing else, chains have links, and arguments and
parameters come in an order that is allowed. The lexer sees to the names (`lex_isProper`), the
derivation of the tree to the rest. The same goes for what a line of input says, or defines a name
as (`Expr.IsRead.all_isProper`).
-/

namespace ExprLang

open ExprLang.Parser

/-! ## Proper tokens -/

/-- A name token holds a name. -/
def Token.IsProper : Token → Prop
  | .name text => IsName text
  | _ => True

theorem Token.isProper_of_ne_name {t : Token} (h : ∀ text, t ≠ .name text) : t.IsProper := by
  cases t with
  | name text => exact absurd rfl (h text)
  | _ => trivial

/-- A word is a keyword or a proper name. -/
theorem wordToken_isProper {word : String} (h : IsWord word.toList) :
    (wordToken word).IsProper := by
  cases hword : wordToken word with
  | name text =>
    obtain rfl : text = word := by
      unfold wordToken at hword
      split at hword
      · simp at hword
      · split at hword
        · simp at hword
        · exact (Token.name.inj hword).symm
    exact ⟨h, hword⟩
  | _ => trivial

theorem scanDecimal_ne_name (cs : List Char) (text : String) :
    (scanDecimal cs).token ≠ .name text := by
  have hnumber : ∀ (whole : Bool) (digits : List Char),
      (if whole then Token.int (String.ofList digits) else .float (String.ofList digits))
        ≠ .name text := by
    intro whole digits
    cases whole <;> simp
  simp only [scanDecimal]
  split
  · exact hnumber _ _
  · split
    · simp
    · exact hnumber _ _

theorem scanNumber_ne_name (cs : List Char) (text : String) :
    (scanNumber cs).token ≠ .name text := by
  unfold scanNumber
  split
  · split
    · simp
    · exact scanDecimal_ne_name _ text
  · exact scanDecimal_ne_name _ text

/-- What is scanned as a word is one. -/
theorem isWord_cons_takeWhile {c : Char} (hc : isNameStart c = true) (cs : List Char) :
    IsWord (c :: cs.takeWhile isNameContinue) where
  starts := by simpa using hc
  continues := by
    intro d hd
    rcases List.mem_cons.1 hd with rfl | hd
    · exact isNameContinue_of_isNameStart hc
    · exact List.all_eq_true.1 List.all_takeWhile d hd
  ne_nil := List.cons_ne_nil _ _

/-- Every token that is scanned is proper. -/
theorem scanToken_isProper (c : Char) (cs : List Char) : (scanToken c cs).token.IsProper := by
  unfold scanToken
  split
  · exact Token.isProper_of_ne_name (scanNumber_ne_name _)
  split
  · split <;> trivial
  split
  · trivial
  split
  · next hc =>
    refine wordToken_isProper ?_
    rw [String.toList_ofList]
    exact isWord_cons_takeWhile hc cs
  · trivial

/-- The tokens of a text are proper. -/
theorem lex_isProper (cs : List Char) : ∀ t ∈ lex cs, t.IsProper := by
  have hplaced : ∀ pos, ∀ t ∈ tokensFrom pos cs, t.token.IsProper := by
    intro pos
    fun_induction tokensFrom pos cs with
    | case1 => simp
    | case2 pos cs skipped c rest hskip lexeme start stop ih =>
      simp only [List.mem_cons, forall_eq_or_imp]
      exact ⟨scanToken_isProper c rest, ih⟩
  simpa [lex] using hplaced 0

/-! ## Proper trees -/

/-- What the parser sees to in an expression, its parts aside. -/
def Expr.IsProper : Expr → Prop
  | .literal (.int n) => 0 ≤ n.toInt
  | .var name | .attribute _ name => IsName name
  | .compare _ links => links ≠ []
  | .call _ args => ArgumentsOrdered args ∧ ∀ name e, .keyword name e ∈ args → IsName name
  | .lambda params _ => params.Valid ∧ ∀ name ∈ params.declared, IsName name
  | _ => True

/-- What is read is within the limit. -/
theorem readDigits_le {radix limit value n : Nat} {cs : List Char} (hvalue : value ≤ limit)
    (h : readDigits radix limit value cs = .ok n) : n ≤ limit := by
  induction cs generalizing value with
  | nil =>
    obtain rfl : value = n := by simpa [readDigits] using h
    exact hvalue
  | cons c cs ih =>
    simp only [readDigits] at h
    split at h
    · simp at h
    · split at h
      · next hle => exact ih hle h
      · simp at h

/-- What is read is within the limit. -/
theorem readNat_le {radix limit n : Nat} {cs : List Char} (h : readNat radix limit cs = .ok n) :
    n ≤ limit := by
  unfold readNat at h
  split at h
  · simp at h
  · exact readDigits_le (Nat.zero_le _) h
  · exact readDigits_le (Nat.zero_le _) h

/-- An integer literal is read in one base, from one list of digits. -/
theorem integerValue_eq (text : String) : ∃ radix body, integerValue text =
    if radix == 10 && body.head? == some '0' && body.any (· != '0') then .error .leadingZeros
    else
      match readNat radix maxInteger body with
      | .ok n => .ok (Int64.ofNat n)
      | .error fault => .error (.badInteger text fault) :=
  ⟨_, _, rfl⟩

/-- Integer literals are not negative. -/
theorem integerValue_nonneg {text : String} {n : Int64} (h : integerValue text = .ok n) :
    0 ≤ n.toInt := by
  obtain ⟨radix, body, heq⟩ := integerValue_eq text
  rw [heq] at h
  split at h
  · simp at h
  · split at h
    · next m hread =>
      have hle := readNat_le hread
      obtain rfl : Int64.ofNat m = n := by simpa using h
      rw [Int64.toInt_ofNat_of_lt (Nat.lt_of_le_of_lt hle (by decide))]
      omega
    · simp at h

/-- The literal of a token is proper, since its integer was within the limit. -/
theorem isProper_of_literal? {t : Token} {value : Literal} (h : t.literal? = some value) :
    (Expr.literal value).IsProper := by
  cases value with
  | int n =>
    unfold Token.literal? at h
    split at h <;> simp at h
    next text =>
      cases hvalue : integerValue text with
      | error cause => simp [hvalue, Except.toOption] at h
      | ok m =>
        obtain rfl : m = n := by simpa [hvalue, Except.toOption] using h
        exact integerValue_nonneg hvalue
  | _ => trivial

/-! ## Trees that are derived -/

/-- The name of a parameter is among its tokens. -/
theorem Params.name_mem_tokens {ps : Params Phrase} {name : String} (h : name ∈ ps.declared) :
    ∃ item ∈ ps.tokens, .name name ∈ item := by
  obtain ⟨positional, varargs, keywordOnly, kwargs⟩ := ps
  simp only [Params.declared, List.mem_append, List.mem_map, Option.mem_toList] at h
  rcases h with ((⟨p, hp, rfl⟩ | rfl) | ⟨p, hp, rfl⟩) | rfl
  · exact ⟨p.tokens, by simp [Params.tokens, List.mem_map_of_mem hp], by simp [Param.tokens]⟩
  · exact ⟨[.symbol .star, .name name], by simp [Params.tokens, Params.starTokens], by simp⟩
  · exact ⟨p.tokens, by simp [Params.tokens, List.mem_map_of_mem hp], by simp [Param.tokens]⟩
  · exact ⟨[.symbol .power, .name name], by simp [Params.tokens], by simp⟩

theorem Params.declared_map {ε δ : Type} (f : ε → δ) (ps : Params ε) :
    (ps.map f).declared = ps.declared := by
  simp [Params.map, Params.declared, Param.map, Function.comp_def]

theorem Params.defaults_map {ε δ : Type} (f : ε → δ) (ps : Params ε) :
    (ps.map f).defaults = ps.defaults.map f := by
  simp [Params.map, Params.defaults, Param.map, List.filterMap_map, List.map_filterMap,
    Function.comp_def]

/-- Parameters are valid by their names. -/
theorem Params.Valid.map {ε δ : Type} (f : ε → δ) {ps : Params ε} (h : ps.Valid) :
    (ps.map f).Valid where
  distinct := by
    rw [Params.declared_map]
    exact h.distinct
  ordered := by simpa [Params.map, List.pairwise_map, Param.map] using h.ordered

theorem Argument.value_map {ε δ : Type} (f : ε → δ) (a : Argument ε) :
    (a.map f).value = f a.value := by
  cases a <;> rfl

/-- Items that are separated in tokens that are proper. -/
theorem Separated.isProper {items : List (List Token)} {ts : List Token} (h : Separated items ts)
    (hts : ∀ t ∈ ts, t.IsProper) : ∀ item ∈ items, ∀ t ∈ item, t.IsProper :=
  fun item hitem t ht => hts t (h.subset item hitem t ht)

/-- The names of parameters whose tokens are proper are names of variables. -/
theorem Separated.isName_declared {ps : Params Phrase} {ts : List Token}
    (h : Separated ps.tokens ts) (hts : ∀ t ∈ ts, t.IsProper) :
    ∀ name ∈ ps.declared, IsName name := by
  intro name hname
  obtain ⟨item, hitem, hmem⟩ := Params.name_mem_tokens hname
  exact h.isProper hts item hitem _ hmem

/-- The keywords of arguments whose tokens are proper are names of variables. -/
theorem Separated.isName_keyword {args : List (Argument Phrase)} {ts : List Token}
    (h : Separated (args.map Argument.tokens) ts) (hts : ∀ t ∈ ts, t.IsProper) {name : String}
    {e : Expr} (hmem : .keyword name e ∈ args.map (Argument.map Phrase.tree)) : IsName name := by
  obtain ⟨a, ha, heq⟩ := List.mem_map.1 hmem
  cases a with
  | keyword name' p =>
    obtain ⟨rfl, -⟩ := Argument.keyword.inj heq
    exact h.isProper hts _ (List.mem_map_of_mem ha) (.name name') (by simp [Argument.tokens])
  | _ => simp [Argument.map] at heq

/-- Items are proper in every part if they are so as soon as their tokens are proper. -/
theorem Separated.all_isProper {items : List Phrase} {ts : List Token}
    (h : Separated (items.map Phrase.tokens) ts) (hts : ∀ t ∈ ts, t.IsProper)
    (hitems : ∀ p ∈ items, (∀ t ∈ p.tokens, t.IsProper) → p.tree.All Expr.IsProper) :
    ∀ p ∈ items, p.tree.All Expr.IsProper :=
  fun p hp => hitems p hp (h.isProper hts _ (List.mem_map_of_mem hp))

/-- The same for a part of a slice. -/
theorem all_isProper_part {part : Option Phrase} (hts : ∀ t ∈ partTokens part, t.IsProper)
    (hpart : ∀ p ∈ part, (∀ t ∈ p.tokens, t.IsProper) → p.tree.All Expr.IsProper) :
    ∀ e ∈ (part.map Phrase.tree).toList, e.All Expr.IsProper := by
  cases part with
  | none => simp
  | some p => simpa using hpart p rfl hts

theorem all_isProper_tuple {ps : List Phrase}
    (h : ∀ p ∈ ps, p.tree.All Expr.IsProper) :
    (Expr.tuple (ps.map Phrase.tree)).All Expr.IsProper :=
  Expr.all_iff.2 ⟨trivial, by simpa only [Expr.children, List.forall_mem_map] using h⟩

/-- What is derived from proper tokens is proper in every part. -/
theorem Derives.all_isProper {bare : Prop} {level : Level} {ts : List Token} {e : Expr}
    (h : Derives bare level ts e) : (∀ t ∈ ts, t.IsProper) → e.All Expr.IsProper := by
  induction h with
  | ofFunction _ ih | ofDisjunction _ ih | ofConjunction _ ih | ofNegated _ ih
  | ofComparison _ ih | ofBinary _ ih | tighter _ _ ih | ofSigned _ ih | ofPower _ ih
  | ofPrimary _ ih | ofAtom _ ih | bareFunction _ _ ih => exact ih
  | conditional _ _ _ ihy iht ihn =>
    intro hts
    simp only [List.forall_mem_append, List.forall_mem_cons] at hts
    exact Expr.all_iff.2 ⟨trivial, by
      simpa [Expr.children] using ⟨iht hts.2.2.1, ihy hts.1, ihn hts.2.2.2.2⟩⟩
  | function _ hvalid hsep _ ihs ih =>
    intro hts
    simp only [List.forall_mem_append, List.forall_mem_cons] at hts
    refine Expr.all_iff.2 ⟨⟨hvalid.map _, ?_⟩, ?_⟩
    · rw [Params.declared_map]
      exact hsep.isName_declared hts.2.1
    · simp only [Expr.children, Params.defaults_map, List.forall_mem_append, List.forall_mem_map,
        List.forall_mem_singleton]
      refine ⟨fun d hd => ihs d hd fun t ht => ?_, ih hts.2.2.2⟩
      obtain ⟨p, hp, hitem⟩ := Params.tokens_of_default hd
      exact hsep.isProper hts.2.1 _ hitem t (by simp [Param.tokens, hp, ht])
  | or _ _ ihl ihr | and _ _ ihl ihr | power _ _ ihl ihr | binary _ _ _ _ ihl ihr =>
    intro hts
    simp only [List.forall_mem_append, List.forall_mem_cons] at hts
    exact Expr.all_iff.2 ⟨trivial, by simpa [Expr.children] using ⟨ihl hts.1, ihr hts.2.2⟩⟩
  | not _ ih | sign _ ih =>
    intro hts
    exact Expr.all_iff.2 ⟨trivial, by
      simpa [Expr.children] using ih (List.forall_mem_cons.1 hts).2⟩
  | compare _ hne _ ih ihs =>
    intro hts
    simp only [List.forall_mem_append] at hts
    refine Expr.all_iff.2 ⟨by simpa [Expr.IsProper] using hne, ?_⟩
    simp only [Expr.children, List.map_map, List.forall_mem_cons, List.forall_mem_map]
    refine ⟨ih hts.1, fun l hl => ihs l hl fun t ht => hts.2 t ?_⟩
    exact List.mem_flatMap.2 ⟨l, hl, List.mem_append_right _ ht⟩
  | dot _ ih =>
    intro hts
    simp only [List.forall_mem_append, List.forall_mem_cons] at hts
    exact Expr.all_iff.2 ⟨hts.2.2.1, by simpa [Expr.children] using ih hts.1⟩
  | call _ _ ho hsep ih ihs =>
    intro hts
    simp only [List.forall_mem_append, List.forall_mem_cons] at hts
    refine Expr.all_iff.2 ⟨⟨(argumentsOrdered_map _ _).2 ho, fun name e => ?_⟩, ?_⟩
    · exact hsep.isName_keyword hts.2.2.1
    · simp only [Expr.children, List.forall_mem_cons, List.forall_mem_map, Argument.value_map]
      refine ⟨ih hts.1, fun a ha => ihs a ha fun t ht => ?_⟩
      exact hsep.isProper hts.2.2.1 _ (List.mem_map_of_mem ha) t (Argument.value_tokens_subset ht)
  | item _ _ ih ihi =>
    intro hts
    simp only [List.forall_mem_append, List.forall_mem_cons] at hts
    exact Expr.all_iff.2 ⟨trivial, by simpa [Expr.children] using ⟨ih hts.1, ihi hts.2.2.1⟩⟩
  | itemTuple _ _ hsep ih ihs =>
    intro hts
    simp only [List.forall_mem_append, List.forall_mem_cons] at hts
    simp only [List.forall_mem_cons] at ihs
    have htuple : (Expr.tuple _).All Expr.IsProper := all_isProper_tuple
      (List.forall_mem_cons.2 ⟨ihs.1 hts.2.2.1, hsep.all_isProper hts.2.2.2.2.1 ihs.2⟩)
    exact Expr.all_iff.2 ⟨trivial, by simpa [Expr.children] using ⟨ih hts.1, htuple⟩⟩
  | @slice _ _ lower upper step _ _ _ _ ih ihl ihu ihs =>
    intro hts
    simp only [List.forall_mem_append, List.forall_mem_cons] at hts
    refine Expr.all_iff.2 ⟨trivial, ?_⟩
    simp only [Expr.children, List.forall_mem_cons, List.forall_mem_append]
    have hstep : ∀ t ∈ partTokens step.join, t.IsProper := by
      cases step with
      | none => simp [partTokens]
      | some part => exact (List.forall_mem_cons.1 hts.2.2.2.2.2.1).2
    exact ⟨ih hts.1, ⟨all_isProper_part hts.2.2.1 ihl, all_isProper_part hts.2.2.2.2.1 ihu⟩,
      all_isProper_part hstep ihs⟩
  | name =>
    intro hts
    exact Expr.all_leaf (hts (.name _) (by simp)) rfl
  | literal h => exact fun _ => Expr.all_leaf (isProper_of_literal? h) rfl
  | strings => exact fun _ => Expr.all_leaf trivial rfl
  | unit => exact fun _ => Expr.all_leaf trivial rfl
  | brackets _ ih =>
    intro hts
    simp only [List.forall_mem_append, List.forall_mem_cons] at hts
    exact ih hts.2.1
  | tuple _ hsep ihs =>
    intro hts
    simp only [List.forall_mem_append, List.forall_mem_cons] at hts
    simp only [List.forall_mem_cons] at ihs
    exact all_isProper_tuple
      (List.forall_mem_cons.2 ⟨ihs.1 hts.2.1, hsep.all_isProper hts.2.2.2.1 ihs.2⟩)
  | list _ hsep ihs =>
    intro hts
    simp only [List.forall_mem_append, List.forall_mem_cons] at hts
    refine Expr.all_iff.2 ⟨trivial, ?_⟩
    simp only [Expr.children, List.forall_mem_map]
    exact hsep.all_isProper hts.2.1 ihs
  | dict _ _ hsep ihk ihv =>
    intro hts
    simp only [List.forall_mem_append, List.forall_mem_cons] at hts
    have hitems := hsep.isProper hts.2.1
    simp only [List.forall_mem_map, entryTokens, List.forall_mem_append, List.forall_mem_cons]
      at hitems
    refine Expr.all_iff.2 ⟨trivial, ?_⟩
    simp only [Expr.children, List.map_map, List.forall_mem_append, List.forall_mem_map]
    exact ⟨fun p hp => ihk p hp (hitems p hp).1, fun p hp => ihv p hp (hitems p hp).2.2⟩

/-- A tree that comes from a source is proper in every part. -/
theorem all_isProper_of_parse {source : String} {e : Expr} (h : parse source = .ok e) :
    e.All Expr.IsProper :=
  (derives_of_parse h).all_isProper (lex_isProper source.toList)

/-- What is parsed from proper tokens is proper. -/
theorem all_isProper_of_runOn {c : Cursor} {e : Expr} (hc : ∀ t ∈ c.words, t.IsProper)
    (h : whole.runOn c = .ok e) : e.All Expr.IsProper := by
  obtain ⟨c', hrun⟩ := whole_of_runOn h
  exact (derives_of_whole hrun).all_isProper hc

/-- Whether an expression is what a source says, or what a line of input says or defines a name
as. -/
inductive Expr.IsRead (e : Expr) : Prop
  | source {source : String} : parse source = .ok e → IsRead e
  | line {line : String} : parseLine line = .ok (.expr e) → IsRead e
  | definition {line name : String} : parseLine line = .ok (.definition name e) → IsRead e

theorem map_eq_ok {ε α β : Type} {f : α → β} {x : Except ε α} {b : β} :
    f <$> x = .ok b ↔ ∃ a, x = .ok a ∧ b = f a := by
  cases x <;> simp [Functor.map, Except.map, eq_comm]

/-- A line that is not blank has an expression read from its tokens, the first two of which may
define a name. -/
theorem runOn_of_parseLine {line : String} {parsed : Line} (h : parseLine line = .ok parsed) :
    parsed = .blank ∨ ∃ c e, (∀ t ∈ c.words, t ∈ sourceTokens line) ∧ whole.runOn c = .ok e ∧
      (parsed = .expr e ∨ ∃ name, parsed = .definition name e) := by
  cases hc : Cursor.ofSource line with
  | error err => simp [parseLine, hc, bind, Except.bind] at h
  | ok c =>
    have hwords := ofSource_eq_ok hc
    simp only [parseLine, hc, bind, Except.bind] at h
    split at h
    · exact .inl (Except.ok.inj h).symm
    right
    split at h
    · next name _ =>
      split at h
      · cases h
      obtain ⟨e, hrun, rfl⟩ := map_eq_ok.1 h
      refine ⟨c.drop 2, e, ?_, hrun, .inr ⟨name, rfl⟩⟩
      rw [Cursor.words_drop, hwords]
      exact fun t => List.mem_of_mem_drop
    · obtain ⟨e, hrun, rfl⟩ := map_eq_ok.1 h
      exact ⟨c, e, fun t ht => hwords ▸ ht, hrun, .inl rfl⟩

/-- Whatever is read is proper. -/
theorem Expr.IsRead.all_isProper {e : Expr} (h : e.IsRead) : e.All Expr.IsProper := by
  cases h with
  | source h => exact all_isProper_of_parse h
  | @line line h =>
    obtain hblank | ⟨c, e', hc, hrun, heq | ⟨name, heq⟩⟩ := runOn_of_parseLine h
    · cases hblank
    · cases heq
      exact all_isProper_of_runOn (fun t ht => lex_isProper line.toList t (hc t ht)) hrun
    · cases heq
  | @definition line name h =>
    obtain hblank | ⟨c, e', hc, hrun, heq | ⟨name', heq⟩⟩ := runOn_of_parseLine h
    · cases hblank
    · cases heq
    · cases heq
      exact all_isProper_of_runOn (fun t ht => lex_isProper line.toList t (hc t ht)) hrun

end ExprLang
